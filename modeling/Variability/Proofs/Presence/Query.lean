import Variability.Analysis

/-!
Questions whose answer does not depend on what is remembered. A question answers with a result when
it gives that result from every memory with some property, and keeps the property.
-/

namespace Variability.Query

variable {ε δ α β : Type} {P : Memory → Prop}

/-- From every memory with the property, the question gives the result and keeps the property. -/
def Answers (P : Memory → Prop) (q : Query ε α) (r : Except ε α) : Prop :=
  ∀ m, P m → ∃ m', P m' ∧ q.run.run m = (r, m')

theorem answers_pure (a : α) : Answers P (pure a : Query ε α) (.ok a) :=
  fun m holds => ⟨m, holds, rfl⟩

theorem answers_throw (e : ε) : Answers P (throw e : Query ε α) (.error e) :=
  fun m holds => ⟨m, holds, rfl⟩

theorem answers_ofExcept (r : Except ε α) : Answers P (ofExcept r) r := by
  cases r with
  | error e => exact answers_throw e
  | ok a => exact answers_pure a

theorem run_get_bind (f : Memory → Query ε α) (m : Memory) :
    (get >>= f).run.run m = (f m).run.run m := rfl

theorem Answers.bind {q : Query ε α} {r : Except ε α} {f : α → Query ε β} {g : α → Except ε β}
    (first : Answers P q r) (second : ∀ a, r = .ok a → Answers P (f a) (g a)) :
    Answers P (q >>= f) (r >>= g) := by
  intro m holds
  obtain ⟨m', holds', run⟩ := first m holds
  cases r with
  | error e =>
      refine ⟨m', holds', ?_⟩
      rw [ExceptT.run_bind, StateT.run_bind, run]
      rfl
  | ok a =>
      obtain ⟨m'', holds'', runRest⟩ := second a rfl m' holds'
      refine ⟨m'', holds'', ?_⟩
      rw [ExceptT.run_bind, StateT.run_bind, run]
      exact runRest

theorem Answers.map {q : Query ε α} {r : Except ε α} (first : Answers P q r) (f : α → β) :
    Answers P (f <$> q) (f <$> r) := by
  intro m holds
  obtain ⟨m', holds', run⟩ := first m holds
  refine ⟨m', holds', ?_⟩
  rw [ExceptT.run_map, StateT.run_map, run]
  rfl

theorem Answers.adapt {q : Query ε α} {r : Except ε α} (first : Answers P q r) (f : ε → δ) :
    Answers P (q.adapt f) (r.mapError f) := by
  intro m holds
  obtain ⟨m', holds', run⟩ := first m holds
  refine ⟨m', holds', ?_⟩
  change StateT.run (Except.mapError f <$> q.run) m = _
  rw [StateT.run_map, run]
  rfl

theorem Answers.mapM {f : α → Query ε β} {g : α → Except ε β} (each : ∀ a, Answers P (f a) (g a))
    (as : List α) : Answers P (as.mapM f) (as.mapM g) := by
  induction as with
  | nil => exact answers_pure []
  | cons a as ih =>
      rw [List.mapM_cons, List.mapM_cons]
      exact (each a).bind fun b _ => ih.bind fun bs _ => answers_pure (b :: bs)

theorem exists_of_run_bind {q : Query ε α} {f : α → Query ε β} {m : Memory} {b : β}
    (run : ((q >>= f).run.run m).1 = .ok b) :
    ∃ a, (q.run.run m).1 = .ok a ∧ ((f a).run.run (q.run.run m).2).1 = .ok b := by
  rw [ExceptT.run_bind, StateT.run_bind] at run
  cases first : q.run.run m with
  | mk answer m' =>
      rw [first] at run
      cases answer with
      | error e => cases run
      | ok a => exact ⟨a, rfl, run⟩

theorem length_eq_of_mapM {f : α → Query ε β} (xs : List α) {m : Memory} {ys : List β}
    (run : ((xs.mapM f).run.run m).1 = .ok ys) : ys.length = xs.length := by
  induction xs generalizing m ys with
  | nil =>
      obtain rfl : [] = ys := Except.ok.inj run
      rfl
  | cons x xs ih =>
      rw [List.mapM_cons] at run
      obtain ⟨y, -, run⟩ := exists_of_run_bind run
      obtain ⟨zs, rest, run⟩ := exists_of_run_bind run
      obtain rfl : y :: zs = ys := Except.ok.inj run
      rw [List.length_cons, List.length_cons, ih rest]

theorem Answers.runFresh {q : Query ε α} {r : Except ε α} {t : Tree} (answers : Answers P q r)
    (blank : P (.blank t.size)) : q.runFresh t = r := by
  obtain ⟨m', -, run⟩ := answers _ blank
  rw [Query.runFresh, run]

end Variability.Query
