import Variability.Proofs.LineGraph.Passage
import Variability.Proofs.LineGraph.Section

/-!
Everything that is read was written, and the other way round. While the reader goes through a
passage the open tree transcribes what was read of it; a header or the end of the text completes
the tree, so the trees that are read transcribe the passages with nodes, one for one and in order.
-/

namespace Variability.LineGraph

/-- A well-formed tree that has the nodes and the edges of a passage, and no others. -/
structure Faithful (options : Options) (passage : Passage) (t : Tree) : Prop
    extends Transcribes options passage t where
  flawless : t.firstFlaw? = none

/-- A passage of which every line is a node, an edge or blank, with edges only where there are
nodes. -/
structure Passage.Understood (passage : Passage) : Prop where
  lines : ∀ l ∈ passage.lines, Line.ofText l ≠ .other
  edges : passage.nodeTexts = [] → passage.edgeTexts = []

def Passage.hasNodes (passage : Passage) : Bool :=
  !passage.nodeTexts.isEmpty

/-- Trees are what passages were read as: each passage with nodes gave one tree. -/
structure Received (options : Options) (ps : List Passage) (ts : List Tree) : Prop where
  understood : ∀ passage ∈ ps, passage.Understood
  trees : List.Forall₂ (Faithful options) (ps.filter Passage.hasNodes) ts

variable {options : Options} {t : Tree}

theorem Received.append {ps qs : List Passage} {ts us : List Tree} (left : Received options ps ts)
    (right : Received options qs us) : Received options (ps ++ qs) (ts ++ us) where
  understood := List.forall_mem_append.mpr ⟨left.understood, right.understood⟩
  trees := by
    rw [List.filter_append]
    exact List.rel_append left.trees right.trees

theorem passages_header {l label : List Char} (line : Line.ofText l = .header label)
    (ls : List (List Char)) :
    passages (l :: ls) = ([], ⟨label, (passages ls).1⟩ :: (passages ls).2) := by
  rw [passages, line]

theorem passages_line {l : List Char} (line : ∀ label, Line.ofText l ≠ .header label)
    (ls : List (List Char)) :
    passages (l :: ls) = (l :: (passages ls).1, (passages ls).2) := by
  rw [passages]
  cases kind : Line.ofText l with
  | header label => exact absurd kind (line label)
  | node rest => rfl
  | edge rest => rfl
  | blank => rfl
  | other => rfl

theorem Transcribes.length_nodeTexts {passage : Passage}
    (transcribes : Transcribes options passage t) : passage.nodeTexts.length = t.size := by
  simpa [Tree.size] using congrArg List.length transcribes.nodes

theorem Transcribes.understood {passage : Passage} (transcribes : Transcribes options passage t)
    (lines : ∀ l ∈ passage.lines, Line.ofText l ≠ .other) : passage.Understood where
  lines := lines
  edges := by
    intro noNodes
    have noSize : t.size = 0 := by rw [← transcribes.length_nodeTexts, noNodes, List.length_nil]
    obtain ⟨es, texts, drawn⟩ := transcribes.edges
    cases es with
    | nil => exact List.map_eq_nil_iff.mp texts
    | cons e es =>
        obtain ⟨⟨c, inside, -⟩, -⟩ := drawn.ends e List.mem_cons_self
        omega

/-- A passage that comes to its end gives its tree, or none when it has no nodes. -/
theorem Transcribes.received {passage : Passage} (transcribes : Transcribes options passage t)
    (lines : ∀ l ∈ passage.lines, Line.ofText l ≠ .other) {m : Nat} {done : List Tree}
    (closes : close (some ⟨m, t⟩) = .ok done) :
    Received options [passage] done ∧ done.reverse = done := by
  have understood : ∀ p ∈ [passage], p.Understood :=
    List.forall_mem_singleton.mpr (transcribes.understood lines)
  have count := transcribes.length_nodeTexts
  rw [close] at closes
  by_cases empty : t.nodes.isEmpty
  · rw [if_pos empty] at closes
    obtain rfl := Except.ok.inj closes
    have noNodes : passage.nodeTexts = [] := by
      rw [List.eq_nil_iff_length_eq_zero, count]
      exact Array.isEmpty_iff_size_eq_zero.mp empty
    refine ⟨⟨understood, ?_⟩, rfl⟩
    simp [Passage.hasNodes, noNodes]
  · rw [if_neg empty] at closes
    cases flaw : t.firstFlaw? with
    | some flaw =>
        rw [flaw] at closes
        cases closes
    | none =>
        rw [flaw] at closes
        obtain rfl := Except.ok.inj closes
        have nodes : passage.nodeTexts ≠ [] := fun noNodes => by
          rw [noNodes, List.length_nil] at count
          exact empty (Array.isEmpty_iff_size_eq_zero.mpr count.symm)
        have kept : [passage].filter Passage.hasNodes = [passage] := by
          simp [Passage.hasNodes, nodes]
        refine ⟨⟨understood, ?_⟩, rfl⟩
        rw [kept]
        exact .cons ⟨transcribes, flaw⟩ .nil

theorem exists_of_readFrom_cons {n : Nat} {p q : Progress} {l : List Char} {ls : List (List Char)}
    (read : readFrom options n p (l :: ls) = .ok q) :
    ∃ p', readLine options p n l = .ok p' ∧ readFrom options (n + 1) p' ls = .ok q := by
  cases first : readLine options p n l with
  | error e =>
      rw [readFrom, List.zipIdx_cons, List.foldlM_cons] at read
      simp only [first] at read
      cases read
  | ok p' => exact ⟨p', rfl, by rw [← read, readFrom_cons first]⟩

theorem exists_of_extend {n m : Nat} {f : Tree → Except DecodeError Tree} {complete : List Tree}
    {p : Progress} (read : (extend n f (some ⟨m, t⟩)).map (Progress.mk complete) = .ok p) :
    ∃ u, f t = .ok u ∧ p = ⟨complete, some ⟨m, u⟩⟩ := by
  rw [extend] at read
  cases taken : f t with
  | error e =>
      rw [taken] at read
      cases read
  | ok u =>
      rw [taken] at read
      exact ⟨u, rfl, (Except.ok.inj read).symm⟩

/-- A line that is no header is taken into the open tree. -/
theorem Transcribes.readLine {passage : Passage} (transcribes : Transcribes options passage t)
    {l : List Char} (line : ∀ label, Line.ofText l ≠ .header label) {complete : List Tree}
    {m n : Nat} {p : Progress}
    (read : LineGraph.readLine options ⟨complete, some ⟨m, t⟩⟩ n l = .ok p) :
    Line.ofText l ≠ .other ∧
      ∃ u, p = ⟨complete, some ⟨m, u⟩⟩ ∧ Transcribes options (passage.extend [l]) u := by
  rw [LineGraph.readLine] at read
  cases kind : Line.ofText l with
  | header label => exact absurd kind (line label)
  | other =>
      rw [kind] at read
      cases read
  | blank =>
      rw [kind] at read
      obtain rfl := Except.ok.inj read
      exact ⟨by simp, t, rfl, transcribes.blank kind⟩
  | node rest =>
      rw [kind] at read
      obtain ⟨u, taken, rfl⟩ := exists_of_extend read
      exact ⟨by simp, u, rfl, transcribes.node kind taken⟩
  | edge rest =>
      rw [kind] at read
      obtain ⟨u, taken, rfl⟩ := exists_of_extend read
      exact ⟨by simp, u, rfl, transcribes.edge kind taken⟩

/-- From the middle of a passage on, the rest of the text gives the tree of this passage and those
of the passages behind it. -/
theorem Transcribes.readFrom {ls : List (List Char)} {passage : Passage}
    (transcribes : Transcribes options passage t)
    (lines : ∀ l ∈ passage.lines, Line.ofText l ≠ .other) {complete done : List Tree} {m n : Nat}
    {q : Progress} (read : LineGraph.readFrom options n ⟨complete, some ⟨m, t⟩⟩ ls = .ok q)
    (closes : close q.current = .ok done) :
    ∃ ts, (done ++ q.complete).reverse = complete.reverse ++ ts ∧
      Received options (passage.extend (passages ls).1 :: (passages ls).2) ts := by
  induction ls generalizing passage t complete m n with
  | nil =>
      obtain rfl := Except.ok.inj read
      obtain ⟨received, same⟩ := transcribes.received lines closes
      refine ⟨done, by rw [List.reverse_append, same], ?_⟩
      rwa [passages, Passage.extend_nil]
  | cons l ls ih =>
      obtain ⟨p, first, rest⟩ := exists_of_readFrom_cons read
      by_cases header : ∃ label, Line.ofText l = .header label
      · obtain ⟨label, line⟩ := header
        rw [LineGraph.readLine, line] at first
        simp only at first
        cases closed : close (some ⟨m, t⟩) with
        | error e =>
            rw [closed] at first
            cases first
        | ok before =>
            rw [closed] at first
            obtain rfl := Except.ok.inj first
            obtain ⟨received, same⟩ := transcribes.received lines closed
            obtain ⟨ts, whole, later⟩ := ih (.start label) (by simp) rest
            refine ⟨before ++ ts, ?_, ?_⟩
            · rw [whole, List.reverse_append, same, List.append_assoc]
            · rw [passages_header line, Passage.extend_nil]
              exact received.append later
      · have line : ∀ label, Line.ofText l ≠ .header label := fun label same => header ⟨label, same⟩
        obtain ⟨known, u, rfl, transcribes'⟩ := transcribes.readLine line first
        have lines' : ∀ k ∈ (passage.extend [l]).lines, Line.ofText k ≠ .other :=
          List.forall_mem_append.mpr ⟨lines, List.forall_mem_singleton.mpr known⟩
        obtain ⟨ts, whole, received⟩ := ih transcribes' lines' rest
        refine ⟨ts, whole, ?_⟩
        rw [passages_line line]
        simpa [Passage.extend] using received

/-- In front of the first header nothing is read, and nothing but blank lines may stand there. -/
theorem received_of_readFrom {ls : List (List Char)} {done : List Tree} {n : Nat} {q : Progress}
    (read : readFrom options n ⟨[], none⟩ ls = .ok q) (closes : close q.current = .ok done) :
    (∀ l ∈ (passages ls).1, Line.ofText l = .blank) ∧
      Received options (passages ls).2 (done ++ q.complete).reverse := by
  induction ls generalizing n with
  | nil =>
      obtain rfl := Except.ok.inj read
      obtain rfl := Except.ok.inj closes
      exact ⟨by simp [passages], by simp [passages], .nil⟩
  | cons l ls ih =>
      obtain ⟨p, first, rest⟩ := exists_of_readFrom_cons read
      rw [readLine] at first
      cases line : Line.ofText l with
      | header label =>
          rw [line] at first
          obtain rfl := Except.ok.inj first
          have opened : Transcribes options ⟨label, []⟩ _ := .start label
          obtain ⟨ts, whole, received⟩ := opened.readFrom (by simp) rest closes
          rw [passages_header line, whole]
          exact ⟨by simp, received⟩
      | blank =>
          rw [line] at first
          obtain rfl := Except.ok.inj first
          obtain ⟨blank, received⟩ := ih rest
          rw [passages_line (by simp [line])]
          exact ⟨List.forall_mem_cons.mpr ⟨line, blank⟩, received⟩
      | node _ =>
          rw [line] at first
          cases first
      | edge _ =>
          rw [line] at first
          cases first
      | other =>
          rw [line] at first
          cases first

theorem received_of_read {text : String} {ts : List Tree} (accepted : read options text = .ok ts) :
    (∀ l ∈ (passages (Text.lines text.toList)).1, Line.ofText l = .blank) ∧
      Received options (passages (Text.lines text.toList)).2 ts := by
  rw [read, readLines] at accepted
  cases run : readFrom options 1 ⟨[], none⟩ (Text.lines text.toList) with
  | error e =>
      rw [readFrom] at run
      simp only [run] at accepted
      cases accepted
  | ok q =>
      have closing := run
      rw [readFrom] at closing
      simp only [closing] at accepted
      cases closes : close q.current with
      | error e =>
          rw [closes] at accepted
          cases accepted
      | ok done =>
          rw [closes] at accepted
          obtain rfl := Except.ok.inj accepted
          exact received_of_readFrom run closes

/-- Whatever is read is faithful to the text: in front of the first header there are only blank
lines, every line of a passage is understood, and the trees are those of the passages that have
nodes, in order. -/
theorem read_faithful {text : String} {ts : List Tree} (accepted : read options text = .ok ts) :
    (∀ l ∈ (passages (Text.lines text.toList)).1, Line.ofText l = .blank) ∧
      (∀ passage ∈ (passages (Text.lines text.toList)).2, passage.Understood) ∧
        List.Forall₂ (Faithful options)
          ((passages (Text.lines text.toList)).2.filter Passage.hasNodes) ts := by
  obtain ⟨blank, received⟩ := received_of_read accepted
  exact ⟨blank, received.understood, received.trees⟩

/-- Of three passages the one without nodes gives no tree. -/
theorem read_faithful_two :
    ∃ t u, read .standard ("\nt # f$$$c\nv 7 NON_ROOT\nv 3 NON_IF_A\nv 5 ADD_CODE_x\n" ++
        "e 5 3 after-only\ne 3 7 both\nt #\n\nt # g\nv 0 NON_ROOT") = .ok [t, u] ∧
      Faithful .standard
        ⟨"f$$$c".toList, ["v 7 NON_ROOT".toList, "v 3 NON_IF_A".toList, "v 5 ADD_CODE_x".toList,
          "e 5 3 after-only".toList, "e 3 7 both".toList]⟩ t ∧
      Faithful .standard ⟨"g".toList, ["v 0 NON_ROOT".toList]⟩ u := by
  let text := "\nt # f$$$c\nv 7 NON_ROOT\nv 3 NON_IF_A\nv 5 ADD_CODE_x\n" ++
    "e 5 3 after-only\ne 3 7 both\nt #\n\nt # g\nv 0 NON_ROOT"
  have accepted : (read .standard text).toOption.isSome := by decide +kernel
  have nodes : (passages (Text.lines text.toList)).2.filter Passage.hasNodes =
      [⟨"f$$$c".toList, ["v 7 NON_ROOT".toList, "v 3 NON_IF_A".toList, "v 5 ADD_CODE_x".toList,
        "e 5 3 after-only".toList, "e 3 7 both".toList]⟩,
      ⟨"g".toList, ["v 0 NON_ROOT".toList]⟩] := by decide +kernel
  cases reads : read .standard text with
  | error e =>
      rw [reads] at accepted
      cases accepted
  | ok ts =>
      obtain ⟨-, -, trees⟩ := read_faithful reads
      rw [nodes] at trees
      cases trees with
      | cons first trees =>
          cases trees with
          | cons second trees =>
              cases trees
              exact ⟨_, _, rfl, first, second⟩

end Variability.LineGraph
