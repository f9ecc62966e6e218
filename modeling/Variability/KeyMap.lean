/-!
Finite maps from names to values. The entries stand in ascending order of their names and no name
stands twice, so a map has one form only: two maps that agree on every name are equal, whatever
order their entries came in.
-/

namespace Variability

variable {α β : Type}

namespace Entries

def Ascending (es : List (String × α)) : Prop :=
  es.Pairwise fun a b => a.1 < b.1

def get? (k : String) : List (String × α) → Option α
  | [] => none
  | (x, v) :: es => if k = x then some v else get? k es

/-- Puts a value under a name; a value that stands there already is combined with it. -/
def insertWith (f : α → α → α) (k : String) (v : α) : List (String × α) → List (String × α)
  | [] => [(k, v)]
  | (x, w) :: es =>
    if k < x then (k, v) :: (x, w) :: es
    else if k = x then (k, f w v) :: es
    else (x, w) :: insertWith f k v es

theorem lt_of_not_lt_of_ne {k x : String} (h : ¬k < x) (hne : k ≠ x) : x < k := by
  refine Decidable.byContradiction fun hx => hne ?_
  exact String.le_antisymm (String.not_lt.mp hx) (String.not_lt.mp h)

theorem fst_mem_insertWith {f : α → α → α} {k : String} {v : α} {es : List (String × α)}
    {e : String × α} (h : e ∈ insertWith f k v es) : e.1 = k ∨ ∃ e' ∈ es, e'.1 = e.1 := by
  induction es with
  | nil => simp_all [insertWith]
  | cons a es ih =>
      simp only [insertWith] at h
      split at h
      · grind
      · split at h <;> grind

theorem Ascending.insertWith {f : α → α → α} {k : String} {v : α} {es : List (String × α)}
    (h : Ascending es) : Ascending (insertWith f k v es) := by
  induction es with
  | nil => simp [Entries.insertWith, Ascending]
  | cons a es ih =>
      obtain ⟨x, w⟩ := a
      obtain ⟨hx, hes⟩ := List.pairwise_cons.mp h
      simp only [Entries.insertWith]
      split
      · next hk =>
        refine List.pairwise_cons.mpr ⟨fun e he => ?_, h⟩
        rcases List.mem_cons.mp he with rfl | he
        · exact hk
        · exact String.lt_trans hk (hx e he)
      · next hk =>
        split
        · next heq =>
          subst heq
          exact List.pairwise_cons.mpr ⟨hx, hes⟩
        · next hne =>
          refine List.pairwise_cons.mpr ⟨fun e he => ?_, ih hes⟩
          rcases fst_mem_insertWith he with hek | ⟨e', he', hee⟩
          · rw [hek]
            exact lt_of_not_lt_of_ne hk hne
          · rw [← hee]
            exact hx e' he'

theorem get?_eq_none_of_lt {k : String} {es : List (String × α)}
    (h : ∀ e ∈ es, k < e.1) : get? k es = none := by
  induction es with
  | nil => rfl
  | cons a es ih =>
      have ha := h a (by simp)
      have hne : k ≠ a.1 := fun hk => String.lt_irrefl k (hk ▸ ha)
      rw [get?, if_neg hne]
      exact ih fun e he => h e (by simp [he])

/-- What was combined with the value that stood under the name; every other name keeps its
value. -/
theorem get?_insertWith {f : α → α → α} {k : String} {v : α} {es : List (String × α)}
    (h : Ascending es) (x : String) :
    get? x (insertWith f k v es) =
      if x = k then some ((get? k es).elim v fun w => f w v) else get? x es := by
  induction es with
  | nil => simp [insertWith, get?]
  | cons a es ih =>
      obtain ⟨y, w⟩ := a
      obtain ⟨hy, hes⟩ := List.pairwise_cons.mp h
      simp only [insertWith]
      split
      · next hk =>
        have hnone : get? k ((y, w) :: es) = none := by
          refine get?_eq_none_of_lt fun e he => ?_
          rcases List.mem_cons.mp he with rfl | he
          · exact hk
          · exact String.lt_trans hk (hy e he)
        rw [get?, hnone]
        rfl
      · next hk =>
        split
        · next heq =>
          subst heq
          by_cases hx : x = k <;> simp [get?, hx]
        · next hne =>
          by_cases hx : x = y
          · subst hx
            simp [get?, Ne.symm hne]
          · simp [get?, hx, hne, ih hes]

theorem eq_of_get?_eq {es fs : List (String × α)} (hes : Ascending es) (hfs : Ascending fs)
    (h : ∀ k, get? k es = get? k fs) : es = fs := by
  induction es generalizing fs with
  | nil =>
      cases fs with
      | nil => rfl
      | cons b fs => simpa [get?] using h b.1
  | cons a es ih =>
      obtain ⟨x, v⟩ := a
      obtain ⟨hx, hes⟩ := List.pairwise_cons.mp hes
      cases fs with
      | nil => simpa [get?] using h x
      | cons b fs =>
          obtain ⟨y, w⟩ := b
          obtain ⟨hy, htail⟩ := List.pairwise_cons.mp hfs
          have hxy : x = y := by
            refine Decidable.byContradiction fun hne => ?_
            by_cases hlt : x < y
            · have hnone : get? x fs = none :=
                get?_eq_none_of_lt fun e he => String.lt_trans hlt (hy e he)
              simpa [get?, hne, hnone] using h x
            · have hlt := lt_of_not_lt_of_ne hlt hne
              have hnone : get? y es = none :=
                get?_eq_none_of_lt fun e he => String.lt_trans hlt (hx e he)
              simpa [get?, Ne.symm hne, hnone] using h y
          subst hxy
          have hvw : v = w := by simpa [get?] using h x
          subst hvw
          refine congrArg _ (ih hes htail fun k => ?_)
          by_cases hk : k = x
          · subst hk
            rw [get?_eq_none_of_lt hx, get?_eq_none_of_lt hy]
          · simpa [get?, hk] using h k

end Entries

structure KeyMap (α : Type) where
  entries : List (String × α)
  ascending : Entries.Ascending entries
  deriving DecidableEq

namespace KeyMap

def empty : KeyMap α :=
  ⟨[], .nil⟩

instance : Inhabited (KeyMap α) :=
  ⟨empty⟩

def get? (m : KeyMap α) (k : String) : Option α :=
  Entries.get? k m.entries

def insertWith (f : α → α → α) (m : KeyMap α) (k : String) (v : α) : KeyMap α :=
  ⟨Entries.insertWith f k v m.entries, m.ascending.insertWith⟩

def insert (m : KeyMap α) (k : String) (v : α) : KeyMap α :=
  m.insertWith (fun _ new => new) k v

def single (k : String) (v : α) : KeyMap α :=
  empty.insert k v

/-- Puts entries in one after the other; of several under one name the last stays. -/
def ofList (es : List (String × α)) : KeyMap α :=
  es.foldl (fun m (k, v) => m.insert k v) empty

/-- The union of two maps; the values of a name that both have are combined. -/
def mergeWith (f : α → α → α) (m n : KeyMap α) : KeyMap α :=
  n.entries.foldr (fun (k, v) m => m.insertWith f k v) m

def add (m n : KeyMap Nat) : KeyMap Nat :=
  mergeWith (· + ·) m n

def values (m : KeyMap α) : List α :=
  m.entries.map Prod.snd

def total (m : KeyMap Nat) : Nat :=
  m.values.foldr (· + ·) 0

def bump (m : KeyMap Nat) (k : String) : KeyMap Nat :=
  m.insertWith (· + ·) k 1

/-- The entries whose values pass through `f`, with what it makes of them. -/
def filterMap (f : α → Option β) (m : KeyMap α) : KeyMap β where
  entries := m.entries.filterMap fun (k, v) => (f v).map (k, ·)
  ascending := by
    refine List.pairwise_filterMap.mpr (m.ascending.imp ?_)
    rintro ⟨k, v⟩ ⟨l, w⟩ h a ha b hb
    obtain ⟨_, _, rfl⟩ := Option.map_eq_some_iff.mp ha
    obtain ⟨_, _, rfl⟩ := Option.map_eq_some_iff.mp hb
    exact h

@[ext] theorem ext {m n : KeyMap α} (h : ∀ k, m.get? k = n.get? k) : m = n := by
  obtain ⟨es, hes⟩ := m
  obtain ⟨fs, hfs⟩ := n
  obtain rfl := Entries.eq_of_get?_eq hes hfs h
  rfl

@[simp] theorem get?_empty (k : String) : (empty : KeyMap α).get? k = none := rfl

theorem get?_insertWith (f : α → α → α) (m : KeyMap α) (k : String) (v : α) (x : String) :
    (m.insertWith f k v).get? x =
      if x = k then some ((m.get? k).elim v fun w => f w v) else m.get? x :=
  Entries.get?_insertWith m.ascending x

@[simp] theorem get?_insert (m : KeyMap α) (k : String) (v : α) (x : String) :
    (m.insert k v).get? x = if x = k then some v else m.get? x := by
  rw [insert, get?_insertWith]
  cases m.get? k <;> rfl

/-- A name of both maps has its values combined, a name of one keeps its value. -/
theorem get?_mergeWith (f : α → α → α) (m n : KeyMap α) (k : String) :
    (mergeWith f m n).get? k = (m.get? k).merge f (n.get? k) := by
  obtain ⟨es, hes⟩ := n
  simp only [mergeWith, get?]
  induction es with
  | nil => cases h : Entries.get? k m.entries <;> simp [Entries.get?, h]
  | cons e es ih =>
      obtain ⟨x, v⟩ := e
      obtain ⟨hx, hes⟩ := List.pairwise_cons.mp hes
      have ih := ih hes
      rw [List.foldr_cons]
      have step := get?_insertWith f (es.foldr (fun (k, v) m => m.insertWith f k v) m) x v k
      simp only [get?] at step
      rw [step]
      by_cases hk : k = x
      · subst hk
        rw [ih, Entries.get?_eq_none_of_lt hx]
        cases Entries.get? k m.entries <;> simp [Entries.get?]
      · simp [hk, ih, Entries.get?]

end KeyMap

end Variability
