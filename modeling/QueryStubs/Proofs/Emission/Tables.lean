import Mathlib
import QueryStubs.Proofs.Emission.Grouping
import QueryStubs.TypeTable

/-!
# Laws of type tables

A type table is known from its names in their order and from what is found under each (`TypeTable.ext`). What the operations do is therefore
said twice: which names there are afterwards, and what is found. From that follow the laws: merging is associative and has the empty table
as its unit, an insertion is the merge of a table with one entry, and where two tables have a name, the second decides the type and the first
the place (`TypeTable.ordered_monoid`).
-/

namespace QueryStubs

namespace Entries

variable {α β : Type} [DecidableEq α]

/-- A new key comes last, and a key that is there stays where it is. -/
theorem keys_insert (key : α) (value : β) (es : List (α × β)) :
    (insert key value es).map (·.1) = if key ∈ es.map (·.1) then es.map (·.1) else es.map (·.1) ++ [key] := by
  induction es with
  | nil => rfl
  | cons e es ih =>
    obtain ⟨m, v⟩ := e
    rw [List.map_cons, insert]
    by_cases hm : m = key
    · rw [if_pos hm, List.map_cons, if_pos (List.mem_cons.mpr (.inl hm.symm))]
    · have hmem : key ∈ m :: es.map (·.1) ↔ key ∈ es.map (·.1) := by simp [Ne.symm hm]
      rw [if_neg hm, List.map_cons, ih]
      simp only [hmem]
      split <;> rfl

/-- Nothing is found for a key that no entry has. -/
theorem lookup_eq_none {k : α} {es : List (α × β)} : es.lookup k = none ↔ k ∉ es.map (·.1) := by
  rw [List.lookup_eq_none_iff, List.mem_map]
  constructor
  · rintro h ⟨e, he, rfl⟩
    simpa using h e he
  · intro h e he
    simpa using fun hk : k = e.1 => h ⟨e, he, hk.symm⟩

/-- Entries are known from their keys and from what is found under them. -/
theorem eq_of_lookup {es fs : List (α × β)} (hes : (es.map (·.1)).Nodup) (hkeys : es.map (·.1) = fs.map (·.1))
    (hlookup : ∀ k, es.lookup k = fs.lookup k) : es = fs := by
  induction es generalizing fs with
  | nil => exact (List.map_eq_nil_iff.mp hkeys.symm).symm
  | cons e es ih =>
    obtain ⟨f, fs, rfl⟩ := List.exists_cons_of_ne_nil (l := fs) (by rintro rfl; cases hkeys)
    obtain ⟨m, v⟩ := e
    obtain ⟨m', v'⟩ := f
    obtain ⟨hm, hes⟩ := List.nodup_cons.mp hes
    obtain ⟨hhead, htail⟩ := List.cons.inj hkeys
    change m = m' at hhead
    subst hhead
    have hv := hlookup m
    rw [lookup_cons, lookup_cons, if_pos rfl, if_pos rfl] at hv
    obtain rfl := Option.some.inj hv
    refine congrArg _ (ih hes htail fun k => ?_)
    by_cases hk : k = m
    · -- the rest has nothing under the key of the entry in front
      subst hk
      rw [lookup_eq_none.mpr hm, lookup_eq_none.mpr (htail ▸ hm)]
    · have hrest := hlookup k
      rwa [lookup_cons, lookup_cons, if_neg hk, if_neg hk] at hrest

/-- Where no key occurs twice, the last entry for a key is the first one. -/
theorem lookup_reverse {es : List (α × β)} (h : (es.map (·.1)).Nodup) (k : α) : es.reverse.lookup k = es.lookup k := by
  induction es with
  | nil => rfl
  | cons e es ih =>
    obtain ⟨m, v⟩ := e
    obtain ⟨hm, hes⟩ := List.nodup_cons.mp h
    rw [List.reverse_cons, List.lookup_append, ih hes, lookup_cons, lookup_cons]
    by_cases hk : k = m
    · rw [if_pos hk, if_pos hk, lookup_eq_none.mpr (hk ▸ hm), Option.none_or]
    · rw [if_neg hk, if_neg hk, List.lookup_nil, Option.or_none]

/-- Other values under the same keys. -/
theorem lookup_map (f : α → β → β) (k : α) (es : List (α × β)) :
    (es.map fun e => (e.1, f e.1 e.2)).lookup k = (es.lookup k).map (f k) := by
  induction es with
  | nil => rfl
  | cons e es ih =>
    obtain ⟨m, v⟩ := e
    rw [List.map_cons, lookup_cons, lookup_cons, ih]
    by_cases hk : k = m
    · rw [if_pos hk, if_pos hk, hk, Option.map_some]
    · rw [if_neg hk, if_neg hk]

/-- The entries of some keys only. -/
theorem lookup_filter (p : α → Bool) (k : α) (es : List (α × β)) :
    (es.filter fun e => p e.1).lookup k = if p k then es.lookup k else none := by
  induction es with
  | nil => simp
  | cons e es ih =>
    obtain ⟨m, v⟩ := e
    rw [List.filter_cons, lookup_cons]
    by_cases hp : p m
    · rw [if_pos hp, lookup_cons, ih]
      by_cases hk : k = m
      · rw [if_pos hk, if_pos hk, hk, if_pos hp]
      · rw [if_neg hk, if_neg hk]
    · rw [if_neg hp, ih]
      by_cases hk : k = m
      · rw [hk, if_neg hp, if_neg hp]
      · rw [if_neg hk]

end Entries

namespace TypeTable

variable (t u v : TypeTable)

/-- The names of a table in their order. -/
def names : List String := t.entries.map (·.1)

variable {t u} in
/-- A table is known from its names and from what they are mapped to. -/
theorem ext (hnames : t.names = u.names) (hget : ∀ n, t.get? n = u.get? n) : t = u := by
  have hentries : t.entries = u.entries := Entries.eq_of_lookup t.distinct hnames hget
  cases t
  cases u
  cases hentries
  rfl

variable {t} in
/-- Nothing is found for a name that is not in the table. -/
theorem get?_eq_none {n : String} : t.get? n = none ↔ n ∉ t.names := Entries.lookup_eq_none

/-! ## Names and types after an operation -/

/-- A new name is added behind all others, and a known one stays where it is. -/
theorem names_insert (name type : String) :
    (t.insert name type).names = if name ∈ t.names then t.names else t.names ++ [name] :=
  Entries.keys_insert name type t.entries

/-- The last of some entries is inserted last. -/
theorem insertAll_concat (es : List (String × String)) (e : String × String) :
    t.insertAll (es ++ [e]) = (t.insertAll es).insert e.1 e.2 := by
  rw [insertAll, List.foldl_append]
  rfl

/-- The names of a table stay where they are, and new ones follow in the order in which they are first seen. -/
theorem names_insertAll (es : List (String × String)) :
    (t.insertAll es).names = t.names ++ (es.map (·.1)).eraseDups.filter (· ∉ t.names) := by
  induction es using List.reverseRecOn with
  | nil => exact (List.append_nil _).symm
  | append_singleton es e ih =>
    rw [insertAll_concat, names_insert, ih, List.map_append, List.map_singleton, eraseDups_concat]
    by_cases hold : e.1 ∈ t.names
    · rw [if_pos (List.mem_append_left _ hold)]
      split
      · rfl
      · rw [List.filter_append, List.filter_singleton, decide_eq_false (not_not_intro hold)]
        exact congrArg (t.names ++ ·) (List.append_nil _).symm
    · have hmem : e.1 ∈ t.names ++ (es.map (·.1)).eraseDups.filter (· ∉ t.names) ↔ e.1 ∈ es.map (·.1) := by
        simp only [List.mem_append, hold, false_or, List.mem_filter, List.mem_eraseDups, not_false_eq_true, decide_true, and_true]
      simp only [hmem]
      split
      · rfl
      · rw [List.filter_append, List.filter_singleton, decide_eq_true hold, List.append_assoc]
        rfl

/-- The last entry for a name decides. -/
theorem get?_insertAll (es : List (String × String)) (n : String) :
    (t.insertAll es).get? n = (es.reverse.lookup n).or (t.get? n) := by
  induction es using List.reverseRecOn with
  | nil => rfl
  | append_singleton es e ih =>
    rw [insertAll_concat, get?_insert, ih, List.reverse_append, List.reverse_singleton, List.singleton_append, Entries.lookup_cons]
    by_cases hn : n = e.1
    · rw [if_pos hn, if_pos hn, Option.some_or]
    · rw [if_neg hn, if_neg hn]

/-- The names of a table are those of its entries, each where it comes first. -/
theorem names_ofList (es : List (String × String)) : (ofList es).names = (es.map (·.1)).eraseDups := by
  rw [ofList, names_insertAll]
  exact List.filter_eq_self.mpr fun _ _ => rfl

/-- For a name a table has the type that was given last. -/
theorem get?_ofList (es : List (String × String)) (n : String) : (ofList es).get? n = es.reverse.lookup n := by
  rw [ofList, get?_insertAll]
  exact Option.or_none

/-- The names of the second table that the first one has not come behind those of the first. -/
theorem names_merge : (t.merge u).names = t.names ++ u.names.filter (· ∉ t.names) := by
  rw [merge, names_insertAll, eraseDups_of_nodup u.distinct]
  rfl

/-- The second table decides. -/
theorem get?_merge (n : String) : (t.merge u).get? n = (u.get? n).or (t.get? n) := by
  rw [merge, get?_insertAll, Entries.lookup_reverse u.distinct]
  rfl

/-! ## Laws -/

/-- The entries of the first table with the types that the second has for them, and then the other entries of the second. -/
theorem entries_merge : (t.merge u).entries =
    (t.entries.map fun e => (e.1, (u.get? e.1).getD e.2)) ++ u.entries.filter fun e => e.1 ∉ t.names := by
  refine Entries.eq_of_lookup (t.merge u).distinct ?_ fun n => ?_
  · have hsecond : (u.entries.filter fun e => e.1 ∉ t.names).map (·.1) = u.names.filter (· ∉ t.names) :=
      (List.filter_map (f := fun e : String × String => e.1) (p := (· ∉ t.names)) (l := u.entries)).symm
    rw [List.map_append, List.map_map, hsecond]
    exact names_merge t u
  · rw [List.lookup_append, Entries.lookup_map (fun name type => (u.get? name).getD type), Entries.lookup_filter (· ∉ t.names)]
    change (t.merge u).get? n = ((t.get? n).map _).or (if _ then u.get? n else none)
    rw [get?_merge]
    cases ht : t.get? n with
    | none => simp [get?_eq_none.mp ht]
    | some type =>
      have hn : n ∈ t.names := by
        by_contra hn
        rw [get?_eq_none.mpr hn] at ht
        cases ht
      cases u.get? n with
      | none => rfl
      | some type' => rfl

/-- It makes no difference which two of three tables are merged first. -/
theorem merge_assoc : (t.merge u).merge v = t.merge (u.merge v) := by
  refine ext ?_ fun n => ?_
  · have hboth : v.names.filter (· ∉ t.names ++ u.names.filter (· ∉ t.names)) =
        (v.names.filter (· ∉ u.names)).filter (· ∉ t.names) := by
      rw [List.filter_filter]
      refine List.filter_congr fun n _ => ?_
      by_cases hn : n ∈ t.names <;> simp [hn]
    rw [names_merge, names_merge, names_merge, names_merge, hboth, List.filter_append, List.append_assoc]
  · rw [get?_merge, get?_merge, get?_merge, get?_merge, Option.or_assoc]

/-- To merge into the empty table changes nothing. -/
theorem empty_merge : empty.merge t = t := by
  refine ext ?_ fun n => ?_
  · rw [names_merge]
    exact List.filter_eq_self.mpr fun _ _ => rfl
  · rw [get?_merge]
    exact Option.or_none

/-- Neither does to merge the empty table. -/
theorem merge_empty : t.merge empty = t := rfl

/-- To insert is to merge a table with one entry. -/
theorem insert_eq_merge (name type : String) : t.insert name type = t.merge (ofList [(name, type)]) := rfl

/-- A table that is read has the entries of the text. -/
theorem entries_of_parse {text : String} (h : parse text = .ok t) : ∃ es, StringMap.read? text = some es ∧ t = ofList es := by
  rw [parse] at h
  cases hread : StringMap.read? text with
  | none =>
    rw [hread] at h
    cases h
  | some es =>
    rw [hread] at h
    refine ⟨es, rfl, ?_⟩
    simp only at h
    split at h
    · cases h
    · exact (Except.ok.inj h).symm

/-- Type tables are maps in an order. No name is there twice. In a merge the names of the first table come first and in their order, with the
types that the second has for them where it has any, and then the other entries of the second; so the second decides what is found. Merging is
associative and the empty table is its unit. An insertion is the merge of a table with one entry, and a table of some entries, which a table
that is read also is, is made by inserting them: its names are those that occur, as they are first seen, and the last entry for a name
decides. -/
theorem ordered_monoid : t.names.Nodup ∧
    (t.merge u).entries = (t.entries.map fun e => (e.1, (u.get? e.1).getD e.2)) ++ (u.entries.filter fun e => e.1 ∉ t.names) ∧
    (∀ n, (t.merge u).get? n = (u.get? n).or (t.get? n)) ∧
    (t.merge u).merge v = t.merge (u.merge v) ∧ empty.merge t = t ∧ t.merge empty = t ∧
    (∀ name type, t.insert name type = t.merge (ofList [(name, type)]) ∧
      (t.insert name type).names = if name ∈ t.names then t.names else t.names ++ [name]) ∧
    (∀ es, ofList es = es.foldl (fun t e => t.insert e.1 e.2) empty ∧ (ofList es).names = (es.map (·.1)).eraseDups ∧
      ∀ n, (ofList es).get? n = es.reverse.lookup n) ∧
    ∀ text, parse text = .ok t → ∃ es, StringMap.read? text = some es ∧ t = ofList es :=
  ⟨t.distinct, entries_merge t u, get?_merge t u, merge_assoc t u v, empty_merge t, merge_empty t,
    fun name type => ⟨insert_eq_merge t name type, names_insert t name type⟩,
    fun es => ⟨rfl, names_ofList es, get?_ofList es⟩, fun _ => entries_of_parse t⟩

/-- A type map in which one name is written twice. -/
def repeatedText : String := "\x7b\"xs:date\": \"A\", \"xs:string\": \"B\", \"xs:date\": \"C\"\x7d"

/-- Its entries as they are written. -/
def repeatedEntries : List (String × String) := [("xs:date", "A"), ("xs:string", "B"), ("xs:date", "C")]

set_option maxRecDepth 10000 in
/-- The last type of a name stands in the place of its first, here and in a table that has the name before. -/
theorem ordered_monoid_repeated : parse repeatedText = .ok (ofList repeatedEntries) ∧
    (∃ es, StringMap.read? repeatedText = some es ∧ ofList repeatedEntries = ofList es) ∧
      (ofList repeatedEntries).entries = [("xs:date", "C"), ("xs:string", "B")] ∧
        (standard.merge (ofList repeatedEntries)).entries = [("xs:string", "B"), ("xs:boolean", "Boolean"), ("xs:date", "C")] := by
  have hparse : parse repeatedText = .ok (ofList repeatedEntries) := by
    cbv
  obtain ⟨-, -, -, -, -, -, -, -, hread⟩ := ordered_monoid (ofList repeatedEntries) empty empty
  obtain ⟨-, hmerge, -⟩ := ordered_monoid standard (ofList repeatedEntries) empty
  exact ⟨hparse, hread repeatedText hparse, by decide, hmerge.trans (by decide)⟩

end TypeTable

end QueryStubs
