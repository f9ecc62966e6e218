import Mathlib.Data.Set.Function
import Variability.CommandLine.Host

/-!
Programs as scripts: what is asked of the host next, and how the program goes on with each answer.
A command is a script when its host is the one that asks. Other programs may go on between two
questions, so what a script achieves is stated for files that only the script itself writes.
-/

namespace Variability.CommandLine

inductive Request where
  | fileSize (path : String)
  | readFile (path : String)
  | listDirectory (path : String)
  | isFile (path : String)
  | makeDirectory (path : String)
  | writeFile (path contents : String)
  | readInput (limit : Nat)
  | millis

namespace Request

def Answer : Request → Type
  | fileSize _ => Except FileError Nat
  | readFile _ => Except FileError (List UInt8)
  | listDirectory _ => Except FileError (List String)
  | isFile _ => Bool
  | makeDirectory _ => Except FileError Unit
  | writeFile _ _ => Except FileError Unit
  | readInput _ => Except FileError (List UInt8)
  | millis => Nat

/-- The file that is written. -/
def target? : Request → Option String
  | writeFile path _ => some path
  | fileSize _ | readFile _ | listDirectory _ | isFile _ | makeDirectory _ | readInput _ | millis =>
    none

end Request

inductive Script (α : Type) where
  | done (a : α)
  | ask (request : Request) (next : request.Answer → Script α)

/-- What is in the files, by their paths. -/
abbrev Files := String → Option String

/-- What a host can answer, and what is in the files then. Nothing but writing changes them; of a
file that cannot be written anything may be left. -/
inductive Responds (files : Files) : (request : Request) → request.Answer → Files → Prop where
  | written (path contents : String) :
      Responds files (.writeFile path contents) (.ok ())
        (Function.update files path (some contents))
  | refused (path contents : String) (e : FileError) (left : Option String) :
      Responds files (.writeFile path contents) (.error e) (Function.update files path left)
  | answered {request : Request} (untouched : request.target? = none) (answer : request.Answer) :
      Responds files request answer files

namespace Script

variable {α β : Type}

def bind : Script α → (α → Script β) → Script β
  | done a, f => f a
  | ask request next, f => ask request fun answer => (next answer).bind f

instance : Monad Script where
  pure := done
  bind := bind

/-- The host that asks. -/
def host : Host Script where
  fileSize path := ask (.fileSize path) done
  readFile path := ask (.readFile path) done
  listDirectory path := ask (.listDirectory path) done
  isFile path := ask (.isFile path) done
  makeDirectory path := ask (.makeDirectory path) done
  writeFile path contents := ask (.writeFile path contents) done
  readInput limit := ask (.readInput limit) done
  millis := ask .millis done

/-- A script can end with this, by some answers. -/
inductive Yields : Script α → α → Prop where
  | done (a : α) : Yields (.done a) a
  | ask {request : Request} {next : request.Answer → Script α} {a : α} (answer : request.Answer)
      (later : Yields (next answer) a) : Yields (.ask request next) a

theorem Yields.of_bind {x : Script α} {f : α → Script β} {b : β} (yields : (x >>= f).Yields b) :
    ∃ a, x.Yields a ∧ (f a).Yields b := by
  induction x with
  | done a => exact ⟨a, .done a, yields⟩
  | ask request next ih =>
      rcases yields with _ | ⟨answer, later⟩
      obtain ⟨a, first, rest⟩ := ih answer later
      exact ⟨a, .ask answer first, rest⟩

theorem Yields.bind {x : Script α} {f : α → Script β} {a : α} {b : β} (first : x.Yields a)
    (rest : (f a).Yields b) : (x >>= f).Yields b := by
  induction first with
  | done a => exact rest
  | ask answer _ ih => exact .ask answer (ih rest)

/-- A script that is played to its end, with nothing else going on. -/
inductive Plays : Script α → Files → α → Files → Prop where
  | done (a : α) (files : Files) : Plays (.done a) files a files
  | ask {request : Request} {next : request.Answer → Script α} {answer : request.Answer} {a : α}
      {files now after : Files} (response : Responds files request answer now)
      (later : Plays (next answer) now a after) : Plays (.ask request next) files a after

theorem Plays.bind {x : Script α} {f : α → Script β} {a : α} {b : β} {files now after : Files}
    (first : x.Plays files a now) (rest : (f a).Plays now b after) :
    (x >>= f).Plays files b after := by
  induction first with
  | done a files => exact rest
  | ask response _ ih => exact .ask response (ih rest)

/-- A script that writes nothing. -/
def Silent : Script α → Prop
  | done _ => True
  | ask request next => request.target? = none ∧ ∀ answer, (next answer).Silent

theorem Silent.bind {x : Script α} {f : α → Script β} (first : x.Silent)
    (rest : ∀ a, (f a).Silent) : (x >>= f).Silent := by
  induction x with
  | done a => exact rest a
  | ask request next ih => exact ⟨first.1, fun answer => ih answer (first.2 answer)⟩

/-- Whatever is answered, and whatever happens to other files in between, a script writes only files
that are its own, and with what it ends the files are as they shall be. -/
def Secures (own : Set String) (post : α → Files → Prop) : Script α → Files → Prop
  | done a, files => ∀ now, Set.EqOn files now own → post a now
  | ask request next, files =>
    (∀ path ∈ request.target?, path ∈ own) ∧
      ∀ now, Set.EqOn files now own → ∀ answer after, Responds now request answer after →
        (next answer).Secures own post after

variable {own : Set String} {post : α → Files → Prop} {files now : Files}

theorem Secures.congr {x : Script α} (secures : x.Secures own post files)
    (same : Set.EqOn files now own) : x.Secures own post now := by
  cases x with
  | done a => exact fun later unchanged => secures later (same.trans unchanged)
  | ask request next =>
      exact ⟨secures.1, fun later unchanged => secures.2 later (same.trans unchanged)⟩

theorem Secures.mono {post' : α → Files → Prop} {x : Script α} (secures : x.Secures own post files)
    (weaker : ∀ a files, post a files → post' a files) : x.Secures own post' files := by
  induction x generalizing files with
  | done a => exact fun now same => weaker a now (secures now same)
  | ask request next ih =>
      exact ⟨secures.1, fun now same answer after response =>
        ih answer (secures.2 now same answer after response)⟩

theorem Secures.bind {post : β → Files → Prop} {x : Script α} {f : α → Script β}
    (secures : x.Secures own (fun a files => (f a).Secures own post files) files) :
    (x >>= f).Secures own post files := by
  induction x generalizing files with
  | done a => exact secures files fun _ _ => rfl
  | ask request next ih =>
      exact ⟨secures.1, fun now same answer after response =>
        ih answer (secures.2 now same answer after response)⟩

theorem Silent.secures {x : Script α} (silent : x.Silent)
    (each : ∀ a, x.Yields a → ∀ now, Set.EqOn files now own → post a now) :
    x.Secures own post files := by
  induction x generalizing files with
  | done a => exact each a (.done a)
  | ask request next ih =>
      obtain ⟨untouched, rest⟩ := silent
      refine ⟨by simp [untouched], fun now same answer after response => ?_⟩
      have kept : after = now := by
        cases response with
        | written | refused => cases untouched
        | answered => rfl
      subst kept
      exact ih answer (rest answer) fun a yields later unchanged =>
        each a (.ask answer yields) later (same.trans unchanged)

theorem Secures.answer {request : Request} {next : request.Answer → Script α}
    (secures : (ask request next).Secures own post files) {answer : request.Answer}
    (response : Responds files request answer now) : (next answer).Secures own post now :=
  secures.2 files (fun _ _ => rfl) answer now response

/-- Nobody else's files change with what a script asks. -/
theorem Secures.eqOn_compl {request : Request} {next : request.Answer → Script α}
    (secures : (ask request next).Secures own post files) {answer : request.Answer}
    (response : Responds files request answer now) : Set.EqOn files now ownᶜ := by
  have outside {path : String} (target : path ∈ own) (left : Option String) :
      Set.EqOn files (Function.update files path left) ownᶜ := by
    intro other foreign
    have different : other ≠ path := by
      rintro rfl
      exact foreign target
    exact (Function.update_of_ne different left files).symm
  cases response with
  | written path contents => exact outside (secures.1 path rfl) _
  | refused path contents e left => exact outside (secures.1 path rfl) _
  | answered => exact fun _ _ => rfl

end Script

end Variability.CommandLine
