import Variability.MiningResult.Snapshot
import Variability.Proofs.MiningResult.Merge
import Variability.Proofs.Text.Written

/-!
Snapshots that say all of a result. A snapshot is taken apart into its data, of which each is one
line: reading the line puts the datum into the result that is read, and the data of a result put
into an empty one give that result. Keys of all kinds stand in one file, so they are told apart by
how they start, and a key ends at the first place where it can. A value ends before the blanks at
the end of its line, so a message is read without the blanks at its end.
-/

namespace Variability

namespace KeyMap

variable {α : Type}

theorem get?_foldl_insert {es : List (String × α)} (ascending : Entries.Ascending es)
    (m : KeyMap α) (k : String) :
    (es.foldl (fun m e => m.insert e.1 e.2) m).get? k = (Entries.get? k es).or (m.get? k) := by
  induction es generalizing m with
  | nil => rfl
  | cons e es ih =>
      obtain ⟨x, v⟩ := e
      obtain ⟨first, rest⟩ := List.pairwise_cons.mp ascending
      rw [List.foldl_cons, ih rest, get?_insert, Entries.get?]
      by_cases same : k = x
      · subst same
        simp [Entries.get?_eq_none_of_lt first]
      · simp [same]

/-- The entries of a map put into an empty one give the map. -/
theorem foldl_insert_empty (m : KeyMap α) :
    m.entries.foldl (fun m e => m.insert e.1 e.2) empty = m := by
  apply KeyMap.ext
  intro k
  rw [get?_foldl_insert m.ascending, get?_empty, Option.or_none]
  rfl

end KeyMap

namespace MiningResult

/-! Keys. -/

/-- A text that can be part of a key: it stands on one line and does not end the key. -/
def Keyed (text : String) : Prop :=
  '\n' ∉ text.toList ∧ ¬ ": ".toList <:+: text.toList

instance (text : String) : Decidable (Keyed text) :=
  inferInstanceAs (Decidable ('\n' ∉ text.toList ∧ ¬ ": ".toList <:+: text.toList))

namespace Key

/-- A key that is read as it was written. -/
def Plain : Key → Prop
  | counter _ | fastest | slowest => True
  | nodes name | pattern name | diffError name | failure name => Keyed name
  | filterHit name => Keyed name ∧ Criterion.explanationStart.toList <+: name.toList

theorem keyed_append {start name : String} (colonless : ':' ∉ start.toList)
    (line : '\n' ∉ start.toList) (keyed : Keyed name) : Keyed (start ++ name) := by
  rw [Keyed, String.toList_append, List.mem_append, not_or]
  exact ⟨⟨line, keyed.1⟩, Text.not_infix_append colonless keyed.2⟩

theorem Plain.keyed {key : Key} (plain : key.Plain) : Keyed key.text := by
  cases key with
  | counter c => cases c <;> decide
  | fastest | slowest => decide
  | nodes | pattern | diffError | failure => exact keyed_append (by decide) (by decide) plain
  | filterHit => exact plain.1

theorem rest?_append (start name : String) : rest? start (start ++ name).toList = some name := by
  rw [rest?, String.toList_append, Text.after?_append, Option.map_some, String.ofList_toList]

/-- Of two texts that do not start with each other nothing starts with both. -/
theorem rest?_eq_none {start other : String} {key : List Char} (starts : start.toList <+: key)
    (apart : ¬ other.toList <+: start.toList ∧ ¬ start.toList <+: other.toList) :
    rest? other key = none := by
  rw [rest?, Option.map_eq_none_iff, Option.eq_none_iff_forall_not_mem]
  intro rest found
  have startsToo : other.toList <+: key := ⟨rest, (Text.after?_eq_some_iff.mp found).symm⟩
  exact (List.prefix_or_prefix_of_prefix startsToo starts).elim apart.1 apart.2

def fixedKeys : List String :=
  Counter.all.map Counter.key ++ [fastestKey, slowestKey]

theorem fixed?_eq_none {start key : String} (starts : start.toList <+: key.toList)
    (apart : ∀ fixed ∈ fixedKeys, ¬ start.toList <+: fixed.toList) : fixed? key = none := by
  have other {fixed : String} (listed : fixed ∈ fixedKeys) : fixed ≠ key := by
    rintro rfl
    exact apart fixed listed starts
  have noCounter : Counter.all.find? (·.key = key) = none := by
    rw [List.find?_eq_none]
    intro c listed
    simpa using other (List.mem_append_left _ (List.mem_map_of_mem listed))
  rw [fixed?, noCounter]
  dsimp only
  rw [if_neg (other (by simp [fixedKeys])).symm, if_neg (other (by simp [fixedKeys])).symm]

/-- A key that is written is read as itself. -/
theorem Plain.read {key : Key} (plain : key.Plain) : read? key.text.toList = some key := by
  have start (start name : String) : start.toList <+: (start ++ name).toList := by
    rw [String.toList_append]
    exact List.prefix_append _ _
  cases key with
  | counter c => cases c <;> decide
  | fastest | slowest => decide
  | nodes name =>
      have starts := start nodesStart name
      rw [text, read?, String.ofList_toList, fixed?_eq_none starts (by decide), rest?_append]
      rfl
  | pattern name =>
      have starts := start patternStart name
      rw [text, read?, String.ofList_toList, fixed?_eq_none starts (by decide),
        rest?_eq_none starts (by decide), rest?_append]
      rfl
  | filterHit name =>
      have starts := plain.2
      obtain ⟨rest, cut⟩ := plain.2
      have found : rest? Criterion.explanationStart name.toList = some (String.ofList rest) := by
        rw [rest?, ← cut, Text.after?_append, Option.map_some]
      rw [text, read?, String.ofList_toList, fixed?_eq_none starts (by decide),
        rest?_eq_none starts (by decide), rest?_eq_none starts (by decide), found]
      rfl
  | diffError name =>
      have starts := start errorStart name
      rw [text, read?, String.ofList_toList, fixed?_eq_none starts (by decide),
        rest?_eq_none starts (by decide), rest?_eq_none starts (by decide),
        rest?_eq_none starts (by decide), rest?_append]
      rfl
  | failure name =>
      have starts := start failureStart name
      rw [text, read?, String.ofList_toList, fixed?_eq_none starts (by decide),
        rest?_eq_none starts (by decide), rest?_eq_none starts (by decide),
        rest?_eq_none starts (by decide), rest?_eq_none starts (by decide), rest?_append]
      rfl

/-- A line is read as its key and its value without the blanks at the end. -/
theorem Plain.readLine {key : Key} (plain : key.Plain) (value : List Char) (r : MiningResult)
    (i : Nat) : Snapshot.readLine r i (Snapshot.line key value) =
      Snapshot.readEntry r i key (Text.trimEnd value) := by
  have marked : ':' ∈ Snapshot.line key value := by simp [Snapshot.line]
  have visible : (Snapshot.line key value).all Text.isBlank = false := by
    rw [List.all_eq_false]
    exact ⟨':', marked, by decide⟩
  have cut : Text.cut? ": ".toList (Snapshot.line key value) = some (key.text.toList, value) :=
    Text.cut?_pair (by decide) plain.keyed.2 value
  rw [Snapshot.readLine, visible, cut]
  simp only [Bool.false_eq_true, ↓reduceIte, plain.read]

end Key

/-! Data. -/

/-- What one line of a snapshot says. -/
inductive Datum where
  | counter (counter : Counter) (n : Nat)
  | fastest (time : CommitTime)
  | slowest (time : CommitTime)
  | nodes (edit : String) (n : Nat)
  | pattern (name : String) (count : PatternCount)
  | filterHit (key : String) (n : Nat)
  | diffError (kind : String) (n : Nat)
  | failure (commit message : String)

namespace Datum

def key : Datum → Key
  | counter c _ => .counter c
  | fastest _ => .fastest
  | slowest _ => .slowest
  | nodes edit _ => .nodes edit
  | pattern name _ => .pattern name
  | filterHit key _ => .filterHit key
  | diffError kind _ => .diffError kind
  | failure commit _ => .failure commit

def value : Datum → List Char
  | counter _ n | nodes _ n | filterHit _ n | diffError _ n => Text.decimal n
  | fastest time | slowest time => Snapshot.printTime time
  | pattern _ count => Snapshot.printPattern count
  | failure _ message => message.toList

def line (d : Datum) : List Char :=
  Snapshot.line d.key d.value

def put (r : MiningResult) : Datum → MiningResult
  | counter c n => c.set r n
  | fastest time => { r with fastest := some time }
  | slowest time => { r with slowest := some time }
  | nodes edit n => { r with exportedNodes := r.exportedNodes.insert edit n }
  | pattern name count => { r with patternCounts := r.patternCounts.insert name count }
  | filterHit key n => { r with filterHits := r.filterHits.insert key n }
  | diffError kind n => { r with diffErrors := r.diffErrors.insert kind n }
  | failure commit message => { r with failures := r.failures.insert commit message }

/-- A value that its line shows as it is. -/
def Shown : Datum → Prop
  | counter _ n | nodes _ n | filterHit _ n | diffError _ n => n < Text.wordLimit
  | fastest time | slowest time => '\n' ∉ time.commit.toList ∧ time.millis < Text.wordLimit
  | pattern _ count => count.occurrences < Text.wordLimit ∧ count.commits < Text.wordLimit
  | failure _ message =>
    '\n' ∉ message.toList ∧ ∀ c ∈ message.toList.getLast?, Text.isBlank c = false

/-- A message without the blanks at its end. -/
def trimMessage (message : String) : String :=
  String.ofList (Text.trimEnd message.toList)

/-- What the line says when the blanks at its end are gone. -/
def trimmed : Datum → Datum
  | failure commit message => failure commit (trimMessage message)
  | d => d

variable {d : Datum}

theorem newline_not_mem_decimal (n : Nat) : '\n' ∉ Text.decimal n :=
  Text.not_mem_decimal rfl

theorem Shown.newline_not_mem_value (shown : d.Shown) : '\n' ∉ d.value := by
  cases d with
  | counter | nodes | filterHit | diffError => exact newline_not_mem_decimal _
  | fastest time | slowest time =>
      simp [value, Snapshot.printTime, shown.1, newline_not_mem_decimal]
  | pattern name count => simp [value, Snapshot.printPattern, newline_not_mem_decimal]
  | failure commit message => exact shown.1

@[simp] theorem key_trimmed (d : Datum) : d.trimmed.key = d.key := by
  cases d <;> rfl

/-- Only a message can end in a blank. -/
theorem trimEnd_value (d : Datum) : Text.trimEnd d.value = d.trimmed.value := by
  cases d with
  | counter | nodes | filterHit | diffError => exact (Text.solid_decimal _).trimEnd
  | fastest time | slowest time =>
      refine Text.trimEnd_eq_self_iff.mpr ?_
      rw [value, Snapshot.printTime, List.getLast?_append_of_ne_nil _ (by decide)]
      rintro c ⟨⟩
      rfl
  | pattern name count =>
      refine Text.trimEnd_eq_self_iff.mpr ?_
      rw [value, Snapshot.printPattern, List.getLast?_append_of_ne_nil _ (by decide)]
      rintro c ⟨⟩
      rfl
  | failure commit message => exact String.toList_ofList.symm

theorem Shown.trimmed (shown : d.Shown) : d.trimmed = d := by
  cases d with
  | failure commit message =>
      rw [Datum.trimmed, trimMessage, Text.trimEnd_eq_self_iff.mpr shown.2, String.ofList_toList]
  | _ => rfl

theorem readNumber_decimal {n : Nat} (word : n < Text.wordLimit) (i : Nat) :
    Snapshot.readNumber i (Text.decimal n) = .ok n := by
  have trimmed : Text.trim (Text.decimal n) = Text.decimal n := by
    have solid := Text.solid_decimal n
    have start := solid.trimStart_append []
    rw [List.append_nil] at start
    rw [Text.trim, start, solid.trimEnd]
  rw [Snapshot.readNumber, trimmed, Text.readDecimal?_decimal word]

theorem readTime_printTime {time : CommitTime} (word : time.millis < Text.wordLimit) (i : Nat) :
    Snapshot.readTime i (Snapshot.printTime time) = .ok time := by
  have behind : '(' ∉ Text.decimal time.millis ++ " ms)".toList := by
    simp [Text.not_mem_decimal]
  have last : Text.cutLast? " (".toList (Snapshot.printTime time) =
      some (time.commit.toList, Text.decimal time.millis ++ " ms)".toList) := by
    rw [Snapshot.printTime, List.append_assoc]
    exact Text.cutLast?_append behind time.commit.toList [' ']
  have millis : Text.before? " ms)".toList (Text.decimal time.millis ++ " ms)".toList) =
      some (Text.decimal time.millis) := Text.before?_eq_some_iff.mpr rfl
  rw [Snapshot.readTime, last]
  simp only [Option.bind_eq_bind, Option.bind_some, millis, Text.readDecimal?_decimal word,
    Option.pure_def, String.ofList_toList]

theorem readPattern_printPattern {count : PatternCount}
    (words : count.occurrences < Text.wordLimit ∧ count.commits < Text.wordLimit) (i : Nat) :
    Snapshot.readPattern i (Snapshot.printPattern count) = .ok count := by
  have first : Text.cut? " in ".toList (Snapshot.printPattern count) =
      some (Text.decimal count.occurrences, Text.decimal count.commits ++ " commits".toList) := by
    rw [Snapshot.printPattern, List.append_assoc]
    exact Text.cut?_append (Text.not_mem_decimal rfl) _ _
  have commits : Text.before? " commits".toList
      (Text.decimal count.commits ++ " commits".toList) = some (Text.decimal count.commits) :=
    Text.before?_eq_some_iff.mpr rfl
  rw [Snapshot.readPattern, first]
  simp only [Option.bind_eq_bind, Option.bind_some, commits, Option.pure_def,
    readNumber_decimal words.1, readNumber_decimal words.2]
  rfl

/-- An entry that is written is read as what it puts into the result. -/
theorem Shown.readEntry (shown : d.Shown) (r : MiningResult) (i : Nat) :
    Snapshot.readEntry r i d.key d.value = .ok (d.put r) := by
  cases d with
  | counter | nodes | filterHit | diffError =>
      simp [key, value, put, Snapshot.readEntry, readNumber_decimal shown]
  | fastest | slowest =>
      simp [key, value, put, Snapshot.readEntry, readTime_printTime shown.2]
  | pattern name count =>
      simp [key, value, put, Snapshot.readEntry, readPattern_printPattern shown]
  | failure commit message =>
      rw [key, value, Snapshot.readEntry, String.ofList_toList]
      rfl

/-- A line that is written is read as its datum, but for the blanks at the end of a message. -/
theorem readLine_line (plain : d.key.Plain) (shown : d.trimmed.Shown) (r : MiningResult) (i : Nat) :
    Snapshot.readLine r i (Text.dropReturn d.line) = .ok (d.trimmed.put r) := by
  have cut : Text.dropReturn d.line = Snapshot.line d.key (Text.dropReturn d.value) := by
    by_cases nothing : d.value = []
    · rw [line, nothing, Text.dropReturn_eq_self_iff.mpr (by simp [Snapshot.line]),
        Text.dropReturn_eq_self_iff.mpr (by simp)]
    · exact Text.dropReturn_append _ nothing
  rw [cut, plain.readLine, Text.trimEnd_dropReturn, trimEnd_value, ← key_trimmed, shown.readEntry]

theorem newline_not_mem_line (plain : d.key.Plain) (whole : '\n' ∉ d.value) : '\n' ∉ d.line := by
  simp [line, Snapshot.line, plain.keyed.1, whole]

end Datum

/-! Snapshots. -/

/-- All that a snapshot says of a result. -/
def data (r : MiningResult) : List Datum :=
  (Counter.all.take 7).map (fun c => .counter c (c.get r)) ++
    r.exportedNodes.entries.map (fun e => .nodes e.1 e.2) ++ r.fastest.toList.map .fastest ++
    r.slowest.toList.map .slowest ++ (Counter.all.drop 7).map (fun c => .counter c (c.get r)) ++
    r.patternCounts.entries.map (fun e => .pattern e.1 e.2) ++
    r.filterHits.entries.map (fun e => .filterHit e.1 e.2) ++
    r.diffErrors.entries.map (fun e => .diffError e.1 e.2) ++
    r.failures.entries.map (fun e => .failure e.1 e.2)

theorem lines_eq_map_line (r : MiningResult) : Snapshot.lines r = r.data.map Datum.line := by
  simp only [Snapshot.lines, data, List.map_append, List.map_map, Snapshot.mapLines,
    Option.toList_map]
  rfl

/-- Entries that are put under the names of one map change that map alone. -/
theorem foldl_put_map {α : Type} {make : String → α → Datum} {get : MiningResult → KeyMap α}
    {set : MiningResult → KeyMap α → MiningResult}
    (puts : ∀ r name a, (make name a).put r = set r ((get r).insert name a))
    (get_set : ∀ r m, get (set r m) = m) (set_set : ∀ r m n, set (set r m) n = set r n)
    (set_get : ∀ r, set r (get r) = r) (es : List (String × α)) (r : MiningResult) :
    (es.map fun e => make e.1 e.2).foldl Datum.put r =
      set r (es.foldl (fun m e => m.insert e.1 e.2) (get r)) := by
  induction es generalizing r with
  | nil => exact (set_get r).symm
  | cons e es ih => rw [List.map_cons, List.foldl_cons, ih, puts, get_set, set_set, List.foldl_cons]

/-- A result is made of what its snapshot says. -/
theorem foldl_put_data (r : MiningResult) : r.data.foldl Datum.put empty = r := by
  have nodes := @foldl_put_map Nat .nodes (·.exportedNodes) ({ · with exportedNodes := · })
    (fun _ _ _ => rfl) (fun _ _ => rfl) (fun _ _ _ => rfl) (fun _ => rfl)
  have patterns := @foldl_put_map PatternCount .pattern (·.patternCounts)
    ({ · with patternCounts := · })
    (fun _ _ _ => rfl) (fun _ _ => rfl) (fun _ _ _ => rfl) (fun _ => rfl)
  have hits := @foldl_put_map Nat .filterHit (·.filterHits) ({ · with filterHits := · })
    (fun _ _ _ => rfl) (fun _ _ => rfl) (fun _ _ _ => rfl) (fun _ => rfl)
  have errors := @foldl_put_map Nat .diffError (·.diffErrors) ({ · with diffErrors := · })
    (fun _ _ _ => rfl) (fun _ _ => rfl) (fun _ _ _ => rfl) (fun _ => rfl)
  have failures := @foldl_put_map String .failure (·.failures) ({ · with failures := · })
    (fun _ _ _ => rfl) (fun _ _ => rfl) (fun _ _ _ => rfl) (fun _ => rfl)
  have fastest (r : MiningResult) (t : Option CommitTime) :
      (t.toList.map .fastest).foldl Datum.put r = { r with fastest := t.or r.fastest } := by
    cases t <;> rfl
  have slowest (r : MiningResult) (t : Option CommitTime) :
      (t.toList.map .slowest).foldl Datum.put r = { r with slowest := t.or r.slowest } := by
    cases t <;> rfl
  simp [data, List.foldl_append, nodes, patterns, hits, errors, failures, fastest, slowest,
    Counter.all, Counter.set, Counter.get, Datum.put, empty, KeyMap.foldl_insert_empty]

/-- Results whose snapshots say all of them: counts are words, names do not look like the end of a
key or a line, and the texts behind them stay on their line and do not end in a blank. -/
structure Presentable (r : MiningResult) : Prop where
  fits : r.Fits
  times : ∀ t ∈ r.fastest.toList ++ r.slowest.toList,
    '\n' ∉ t.commit.toList ∧ t.millis < Text.wordLimit
  nodes : ∀ e ∈ r.exportedNodes.entries, Keyed e.1
  patterns : ∀ e ∈ r.patternCounts.entries, Keyed e.1
  filterHits : ∀ e ∈ r.filterHits.entries,
    Keyed e.1 ∧ Criterion.explanationStart.toList <+: e.1.toList
  diffErrors : ∀ e ∈ r.diffErrors.entries, Keyed e.1
  failures : ∀ e ∈ r.failures.entries,
    Keyed e.1 ∧ '\n' ∉ e.2.toList ∧ ∀ c ∈ e.2.toList.getLast?, Text.isBlank c = false

namespace Presentable

variable {r : MiningResult}

theorem counter (presentable : r.Presentable) (c : Counter) : c.get r < Text.wordLimit := by
  obtain ⟨scalars, -⟩ := fits_iff.mp presentable.fits
  cases c <;> simp only [Counter.get] <;> omega

theorem data (presentable : r.Presentable) : ∀ d ∈ r.data, d.key.Plain ∧ d.Shown := by
  obtain ⟨-, nodes, patterns, hits, errors⟩ := fits_iff.mp presentable.fits
  have listed {α : Type} {m : KeyMap α} {e : String × α} (member : e ∈ m.entries) :
      e.2 ∈ m.values := List.mem_map_of_mem member
  have counters (cs : List Counter) :
      ∀ d ∈ cs.map fun c => Datum.counter c (c.get r), d.key.Plain ∧ d.Shown :=
    List.forall_mem_map.mpr fun c _ => ⟨trivial, presentable.counter c⟩
  obtain ⟨fastest, slowest⟩ := List.forall_mem_append.mp presentable.times
  simp only [MiningResult.data, List.forall_mem_append]
  refine ⟨⟨⟨⟨⟨⟨⟨⟨counters _, ?_⟩, ?_⟩, ?_⟩, counters _⟩, ?_⟩, ?_⟩, ?_⟩, ?_⟩ <;>
    refine List.forall_mem_map.mpr fun e member => ?_
  · exact ⟨presentable.nodes e member, nodes e.2 (listed member)⟩
  · exact ⟨trivial, fastest e member⟩
  · exact ⟨trivial, slowest e member⟩
  · exact ⟨presentable.patterns e member, patterns e.2 (listed member)⟩
  · exact ⟨presentable.filterHits e member, hits e.2 (listed member)⟩
  · exact ⟨presentable.diffErrors e member, errors e.2 (listed member)⟩
  · exact presentable.failures e member

end Presentable

/-- Lines that are written are read one after the other as their data. -/
theorem foldlM_readLine {ds : List Datum} (written : ∀ d ∈ ds, d.key.Plain ∧ d.trimmed.Shown)
    (i : Nat) (r : MiningResult) :
    ((ds.map fun d => Text.dropReturn d.line).zipIdx i).foldlM
        (fun r (line, n) => Snapshot.readLine r n line) r =
      .ok ((ds.map Datum.trimmed).foldl Datum.put r) := by
  induction ds generalizing i r with
  | nil => rfl
  | cons d ds ih =>
      obtain ⟨⟨plain, shown⟩, rest⟩ := List.forall_mem_cons.mp written
      rw [List.map_cons, List.zipIdx_cons, List.foldlM_cons]
      dsimp only
      rw [Datum.readLine_line plain shown]
      exact ih rest (i + 1) (d.trimmed.put r)

/-- A result without the blanks at the end of its messages. -/
def trimmed (r : MiningResult) : MiningResult :=
  { r with failures := r.failures.filterMap fun message => some (Datum.trimMessage message) }

theorem data_trimmed (r : MiningResult) : r.trimmed.data = r.data.map Datum.trimmed := by
  simp only [data, trimmed, KeyMap.filterMap, Counter.get, List.map_append, List.map_map,
    Option.map_some, List.filterMap_eq_map']
  rfl

/-- The snapshot of a result is read as the result without the blanks at the end of its messages. -/
theorem ofSnapshot_toSnapshot {r : MiningResult} (presentable : r.trimmed.Presentable)
    (lines : ∀ e ∈ r.failures.entries, '\n' ∉ e.2.toList) :
    ofSnapshot r.toSnapshot = .ok r.trimmed := by
  have written : ∀ d ∈ r.data, d.key.Plain ∧ d.trimmed.Shown := by
    intro d member
    rw [← d.key_trimmed]
    exact presentable.data d.trimmed (data_trimmed r ▸ List.mem_map_of_mem member)
  have whole : ∀ d ∈ r.data, '\n' ∉ d.value := by
    intro d member
    cases d with
    | failure commit message =>
        refine lines (commit, message) ?_
        simpa [data, Counter.all] using member
    | _ => exact (written _ member).2.newline_not_mem_value
  have back : Text.lines (Text.unlines (Snapshot.lines r)) =
      r.data.map fun d => Text.dropReturn d.line := by
    rw [lines_eq_map_line, Text.lines_unlines, List.map_map]
    · rfl
    · exact List.forall_mem_map.mpr fun d member =>
        Datum.newline_not_mem_line (written d member).1 (whole d member)
  rw [ofSnapshot, toSnapshot, String.toList_ofList, back, foldlM_readLine written, ← data_trimmed,
    foldl_put_data]

theorem Presentable.trimmed_eq {r : MiningResult} (presentable : r.Presentable) :
    r.trimmed = r := by
  rw [← foldl_put_data r.trimmed, data_trimmed,
    List.map_congr_left fun d member => (presentable.data d member).2.trimmed, List.map_id',
    foldl_put_data]

/-- The snapshot of a presentable result is read as the result. -/
theorem Presentable.ofSnapshot_toSnapshot {r : MiningResult} (presentable : r.Presentable) :
    ofSnapshot r.toSnapshot = .ok r := by
  have same := presentable.trimmed_eq
  have read := MiningResult.ofSnapshot_toSnapshot (same.symm ▸ presentable)
    fun e member => (presentable.failures e member).2.1
  rw [read, same]

end MiningResult

end Variability
