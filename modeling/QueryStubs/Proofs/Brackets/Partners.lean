import Mathlib.Data.List.Induction
import Mathlib.Data.List.Sort
import QueryStubs.Proofs.Syntax.Scans

/-!
# Partners of brackets

Read from left to right, a closing bracket closes the last bracket that is open in front of it, if there is one: the two are partners
(`Brackets.Partners`). Neither has any other partner (`Partners.unique_open`, `Partners.unique_close`), and what is opened between the two
is closed there (`Partners.inside`).

Where `depthAfter` counts some kinds down to nothing, every bracket has its partner (`Brackets.closed_of_counted`,
`Brackets.opened_of_counted`). In any other row some brackets may be without: they are listed from left to right (`Brackets.loneCloses`,
`Brackets.loneOpens`), and a stack of the brackets that are open tells which they are (`OpenRow`).
-/

namespace QueryStubs.Grammar

open QueryStubs

/-- Brackets that belong together: the kinds that open one, and the kinds that close one. -/
structure Brackets where
  opens : TokenKind → Bool
  closes : TokenKind → Bool
  apart : ∀ k, opens k = true → closes k = false

namespace Brackets

/-- Brackets of all three shapes, whatever shape closes which. -/
def all : Brackets := ⟨TokenKind.isOpening, TokenKind.isClosing, fun k hk => by cases k <;> first | rfl | cases hk⟩

/-- Braces alone. -/
def braces : Brackets := ⟨(· = .braceOpen), (· = .braceClose), fun k hk => by rw [of_decide_eq_true hk]; rfl⟩

/-- The number of brackets that are open behind some kinds if `depth` were open before them, and none if one too many is closed. -/
def depthFrom (b : Brackets) (depth : Nat) (ks : List TokenKind) : Option Nat :=
  depthAfter b.opens b.closes (fun _ => false) depth ks

/-- The bracket at `i` is open at the end of some kinds, and so are `depth` brackets that were opened behind it. -/
def OpenAt (b : Brackets) (ks : List TokenKind) (depth i : Nat) : Prop :=
  ks[i]?.any b.opens = true ∧ b.depthFrom 0 (ks.drop (i + 1)) = some depth

/-- The bracket at `j` closes the one at `i`, which is the last that is open in front of it. -/
def Partners (b : Brackets) (ks : List TokenKind) (i j : Nat) : Prop := ks[j]?.any b.closes = true ∧ b.OpenAt (ks.take j) 0 i

instance (b : Brackets) (ks : List TokenKind) (depth i : Nat) : Decidable (b.OpenAt ks depth i) :=
  inferInstanceAs (Decidable (_ ∧ _))

instance (b : Brackets) (ks : List TokenKind) (i j : Nat) : Decidable (b.Partners ks i j) :=
  inferInstanceAs (Decidable (_ ∧ _))

/-- The bracket at `j` closes none. -/
def LoneClose (b : Brackets) (ks : List TokenKind) (j : Nat) : Prop := ks[j]?.any b.closes = true ∧ ∀ i < j, ¬ b.Partners ks i j

/-- The bracket at `i` is closed by none. -/
def LoneOpen (b : Brackets) (ks : List TokenKind) (i : Nat) : Prop :=
  ks[i]?.any b.opens = true ∧ ∀ j < ks.length, ¬ b.Partners ks i j

instance (b : Brackets) (ks : List TokenKind) (j : Nat) : Decidable (b.LoneClose ks j) :=
  inferInstanceAs (Decidable (_ ∧ _))

instance (b : Brackets) (ks : List TokenKind) (i : Nat) : Decidable (b.LoneOpen ks i) :=
  inferInstanceAs (Decidable (_ ∧ _))

/-- The places of the brackets that close none, in order. -/
def loneCloses (b : Brackets) (ks : List TokenKind) : List Nat := (List.range ks.length).filter (b.LoneClose ks ·)

/-- The places of the brackets that are closed by none, in order. -/
def loneOpens (b : Brackets) (ks : List TokenKind) : List Nat := (List.range ks.length).filter (b.LoneOpen ks ·)

variable {b : Brackets} {ks ks' : List TokenKind} {k : TokenKind} {i j m n : Nat}

/-! ## Counting -/

theorem depthFrom_nil : b.depthFrom n [] = some n := rfl

/-- Depths are counted through one row and then through the next. -/
theorem depthFrom_append : b.depthFrom n (ks ++ ks') = (b.depthFrom n ks).bind fun m => b.depthFrom m ks' := depthAfter_append n ks ks'

/-- An opening bracket adds one to the depth. -/
theorem depthFrom_open (hk : b.opens k = true) : b.depthFrom n (k :: ks) = b.depthFrom (n + 1) ks := depthAfter_open hk n ks

/-- A closing bracket takes one from it. -/
theorem depthFrom_close (hk : b.closes k = true) : b.depthFrom (n + 1) (k :: ks) = b.depthFrom n ks :=
  depthAfter_close (Bool.not_eq_true _ ▸ fun ho => by simp [b.apart k ho] at hk) hk n ks

/-- Anything else leaves it. -/
theorem depthFrom_other (ho : b.opens k = false) (hc : b.closes k = false) : b.depthFrom n (k :: ks) = b.depthFrom n ks :=
  depthAfter_other ho hc (by simp) ks

/-- Where nothing is open, nothing can be closed. -/
theorem depthFrom_zero (hk : b.closes k = true) : b.depthFrom 0 (k :: ks) = none :=
  depthAfter_ends ⟨Bool.not_eq_true _ ▸ fun ho => by simp [b.apart k ho] at hk, .inl hk⟩ ks

/-- If more were open before, more are open behind. -/
theorem depthFrom_add (h : b.depthFrom n ks = some m) (more : Nat) : b.depthFrom (n + more) ks = some (m + more) := by
  induction ks generalizing n with
  | nil =>
    cases h
    rfl
  | cons k ks ih =>
    by_cases ho : b.opens k = true
    · rw [depthFrom_open ho] at h ⊢
      rw [Nat.add_right_comm]
      exact ih h
    by_cases hc : b.closes k = true
    · cases n with
      | zero =>
        rw [depthFrom_zero hc] at h
        cases h
      | succ n =>
        rw [depthFrom_close hc] at h
        rw [Nat.add_right_comm, depthFrom_close hc]
        exact ih h
    · rw [Bool.not_eq_true] at ho hc
      rw [depthFrom_other ho hc] at h ⊢
      exact ih h

/-! ## Brackets that are open -/

/-- What stands in front of a kind, the kind, and what is behind it. -/
theorem split_at (h : ks[j]? = some k) : ks = ks.take j ++ k :: ks.drop (j + 1) := by
  obtain ⟨hj, rfl⟩ := List.getElem?_eq_some_iff.mp h
  rw [List.getElem_cons_drop, List.take_append_drop]

/-- What stands behind a place is cut at a kind further behind. -/
theorem drop_at (h : ks[j]? = some k) (hij : i < j) : ks.drop (i + 1) = (ks.take j).drop (i + 1) ++ k :: ks.drop (j + 1) := by
  obtain ⟨hj, -⟩ := List.getElem?_eq_some_iff.mp h
  have hlen : i + 1 ≤ (ks.take j).length := by
    rw [List.length_take]
    omega
  conv_lhs => rw [split_at h]
  rw [List.drop_append_of_le_length hlen]

/-- What is open is in the row. -/
theorem OpenAt.lt (h : b.OpenAt ks m i) : i < ks.length := by
  obtain ⟨k, hk, -⟩ := (Option.any_eq_true ..).mp h.1
  exact (List.getElem?_eq_some_iff.mp hk).1

/-- Of two brackets that are open, the one in front has more open behind it. -/
theorem OpenAt.depth_lt (h : b.OpenAt ks m i) (h' : b.OpenAt ks n j) (hij : i < j) : n < m := by
  obtain ⟨k, hk, ho⟩ := (Option.any_eq_true ..).mp h'.1
  have hcount := h.2
  rw [drop_at hk hij, depthFrom_append, Option.bind_eq_some_iff] at hcount
  obtain ⟨p, -, hp⟩ := hcount
  rw [depthFrom_open ho] at hp
  have hmore := depthFrom_add h'.2 (p + 1)
  rw [Nat.zero_add, hp] at hmore
  cases hmore
  omega

/-- There is one of each depth at most. -/
theorem OpenAt.unique (h : b.OpenAt ks m i) (h' : b.OpenAt ks m j) : i = j := by
  rcases Nat.lt_trichotomy i j with hlt | he | hgt
  · exact absurd (h.depth_lt h' hlt) (Nat.lt_irrefl m)
  · exact he
  · exact absurd (h'.depth_lt h hgt) (Nat.lt_irrefl m)

/-- Behind one kind more the brackets are open that it does not close, and it is open itself if it is a bracket that opens. -/
theorem openAt_concat : b.OpenAt (ks ++ [k]) m i ↔
    (∃ n, b.OpenAt ks n i ∧ b.depthFrom n [k] = some m) ∨ b.opens k = true ∧ i = ks.length ∧ m = 0 := by
  rcases Nat.lt_trichotomy i ks.length with hlt | rfl | hgt
  · rw [OpenAt, List.getElem?_append_left hlt, List.drop_append_of_le_length hlt, depthFrom_append, Option.bind_eq_some_iff]
    constructor
    · rintro ⟨ho, n, hn, hm⟩
      exact .inl ⟨n, ⟨ho, hn⟩, hm⟩
    · rintro (⟨n, ⟨ho, hn⟩, hm⟩ | ⟨-, rfl, -⟩)
      · exact ⟨ho, n, hn, hm⟩
      · exact absurd hlt (Nat.lt_irrefl _)
  · rw [OpenAt, List.getElem?_concat_length, List.drop_of_length_le (by simp), depthFrom_nil]
    constructor
    · rintro ⟨ho, hm⟩
      exact .inr ⟨ho, rfl, (Option.some.inj hm).symm⟩
    · rintro (⟨n, hn, -⟩ | ⟨ho, -, rfl⟩)
      · exact absurd hn.lt (Nat.lt_irrefl _)
      · exact ⟨ho, rfl⟩
  · constructor
    · intro h
      have hlt := h.lt
      simp at hlt
      omega
    · rintro (⟨n, hn, -⟩ | ⟨-, rfl, -⟩)
      · exact absurd hn.lt (Nat.lt_asymm hgt)
      · exact absurd hgt (Nat.lt_irrefl _)

/-- A bracket that opens is open, and all others are so one bracket further outside. -/
theorem openAt_open (hk : b.opens k = true) :
    b.OpenAt (ks ++ [k]) m i ↔ m = 0 ∧ i = ks.length ∨ ∃ n, m = n + 1 ∧ b.OpenAt ks n i := by
  have hone : ∀ n, b.depthFrom n [k] = some m ↔ m = n + 1 := fun n => by
    rw [depthFrom_open hk, depthFrom_nil, Option.some_inj, eq_comm]
  simp only [openAt_concat, hone, hk, true_and]
  constructor
  · rintro (⟨n, hn, hm⟩ | ⟨hi, hm⟩)
    · exact .inr ⟨n, hm, hn⟩
    · exact .inl ⟨hm, hi⟩
  · rintro (⟨hm, hi⟩ | ⟨n, hm, hn⟩)
    · exact .inr ⟨hi, hm⟩
    · exact .inl ⟨n, hn, hm⟩

/-- A bracket that closes takes away the innermost that is open. -/
theorem openAt_close (hk : b.closes k = true) : b.OpenAt (ks ++ [k]) m i ↔ b.OpenAt ks (m + 1) i := by
  rw [openAt_concat]
  constructor
  · rintro (⟨_ | n, hn, hm⟩ | ⟨ho, -, -⟩)
    · rw [depthFrom_zero hk] at hm
      cases hm
    · rw [depthFrom_close hk] at hm
      cases hm
      exact hn
    · rw [b.apart k ho] at hk
      cases hk
  · intro h
    exact .inl ⟨m + 1, h, depthFrom_close hk⟩

/-- Every other kind leaves open what is open. -/
theorem openAt_other (ho : b.opens k = false) (hc : b.closes k = false) : b.OpenAt (ks ++ [k]) m i ↔ b.OpenAt ks m i := by
  have hone : ∀ n, b.depthFrom n [k] = some m ↔ n = m := fun n => by rw [depthFrom_other ho hc, depthFrom_nil, Option.some_inj]
  simp [openAt_concat, hone, ho]

/-- Where brackets can be counted, as many are open as are counted. -/
theorem openAt_iff_lt (h : b.depthFrom 0 ks = some n) : (∃ i, b.OpenAt ks m i) ↔ m < n := by
  induction ks using List.reverseRecOn generalizing m n with
  | nil =>
    cases h
    exact ⟨fun ⟨i, hi⟩ => absurd hi.lt (Nat.not_lt_zero i), fun hm => absurd hm (Nat.not_lt_zero m)⟩
  | append_singleton ks k ih =>
    rw [depthFrom_append, Option.bind_eq_some_iff] at h
    obtain ⟨p, hp, hn⟩ := h
    by_cases ho : b.opens k = true
    · rw [depthFrom_open ho] at hn
      cases hn
      simp only [openAt_open ho]
      cases m with
      | zero => exact ⟨fun _ => Nat.succ_pos p, fun _ => ⟨ks.length, .inl ⟨rfl, rfl⟩⟩⟩
      | succ m => simpa using ih hp (m := m)
    by_cases hc : b.closes k = true
    · simp only [openAt_close hc]
      cases p with
      | zero =>
        rw [depthFrom_zero hc] at hn
        cases hn
      | succ p =>
        rw [depthFrom_close hc] at hn
        cases hn
        rw [ih hp]
        exact Nat.succ_lt_succ_iff
    · rw [Bool.not_eq_true] at ho hc
      rw [depthFrom_other ho hc] at hn
      cases hn
      simp only [openAt_other ho hc]
      exact ih hp

/-! ## Partners -/

/-- A bracket comes before its partner. -/
theorem Partners.lt (h : b.Partners ks i j) : i < j := Nat.lt_of_lt_of_le h.2.lt (List.length_take_le j ks)

/-- Both are in the row. -/
theorem Partners.lt_length (h : b.Partners ks i j) : j < ks.length := by
  obtain ⟨k, hk, -⟩ := (Option.any_eq_true ..).mp h.1
  exact (List.getElem?_eq_some_iff.mp hk).1

/-- A closing bracket has one partner at most. -/
theorem Partners.unique_open {i' : Nat} (h : b.Partners ks i j) (h' : b.Partners ks i' j) : i = i' := h.2.unique h'.2

/-- What comes behind two brackets does not matter to them. -/
theorem partners_take (hj : j < n) : b.Partners (ks.take n) i j ↔ b.Partners ks i j := by
  rw [Partners, Partners, List.getElem?_take_of_lt hj, List.take_take, Nat.min_eq_left (Nat.le_of_lt hj)]

/-- A bracket at the end of a row closes the innermost that is open. -/
theorem partners_concat (hk : b.closes k = true) : b.Partners (ks ++ [k]) i ks.length ↔ b.OpenAt ks 0 i := by
  rw [Partners, List.getElem?_concat_length, List.take_left]
  exact and_iff_right hk

/-- What is open has no partner. -/
theorem OpenAt.not_closed (h : b.OpenAt ks m i) : ¬ b.Partners ks i j := by
  intro hp
  obtain ⟨k, hk, hc⟩ := (Option.any_eq_true ..).mp hp.1
  have hcount := h.2
  rw [drop_at hk hp.lt, depthFrom_append, hp.2.2, Option.bind_some, depthFrom_zero hc] at hcount
  cases hcount

/-- An opening bracket has one partner at most. -/
theorem Partners.unique_close {j' : Nat} (h : b.Partners ks i j) (h' : b.Partners ks i j') : j = j' := by
  rcases Nat.lt_trichotomy j j' with hlt | he | hgt
  · exact absurd ((partners_take hlt).mpr h) h'.2.not_closed
  · exact he
  · exact absurd ((partners_take hgt).mpr h') h.2.not_closed

/-- Partners stay partners whatever comes behind them. -/
theorem Partners.append (h : b.Partners ks i j) (more : List TokenKind) : b.Partners (ks ++ more) i j := by
  rw [← partners_take h.lt_length, List.take_left]
  exact h

/-- An opening bracket is open at the end, or it has a partner. -/
theorem open_or_closed (hi : ks[i]?.any b.opens = true) : (∃ m, b.OpenAt ks m i) ∨ ∃ j, b.Partners ks i j := by
  induction ks using List.reverseRecOn with
  | nil => simp at hi
  | append_singleton ks k ih =>
    by_cases hlt : i < ks.length
    · rw [List.getElem?_append_left hlt] at hi
      rcases ih hi with ⟨m, hm⟩ | ⟨j, hj⟩
      · by_cases ho : b.opens k = true
        · exact .inl ⟨m + 1, (openAt_open ho).mpr (.inr ⟨m, rfl, hm⟩)⟩
        by_cases hc : b.closes k = true
        · cases m with
          | zero => exact .inr ⟨ks.length, (partners_concat hc).mpr hm⟩
          | succ m => exact .inl ⟨m, (openAt_close hc).mpr hm⟩
        · rw [Bool.not_eq_true] at ho hc
          exact .inl ⟨m, (openAt_other ho hc).mpr hm⟩
      · exact .inr ⟨j, hj.append [k]⟩
    · obtain ⟨k', hk, ho⟩ := (Option.any_eq_true ..).mp hi
      have hlen := (List.getElem?_eq_some_iff.mp hk).1
      obtain rfl : i = ks.length := by
        simp at hlen
        omega
      obtain rfl : k = k' := by simpa using hk
      exact .inl ⟨0, (openAt_open ho).mpr (.inl ⟨rfl, rfl⟩)⟩

/-- What is opened between two partners is closed between them. -/
theorem Partners.inside {i' : Nat} (h : b.Partners ks i j) (hi : ks[i']?.any b.opens = true) (hlt : i < i') (hlt' : i' < j) :
    ∃ j' < j, b.Partners ks i' j' := by
  have hopens : (ks.take j)[i']?.any b.opens = true := by
    rw [List.getElem?_take_of_lt hlt']
    exact hi
  rcases open_or_closed hopens with ⟨m, hm⟩ | ⟨j', hp⟩
  · exact absurd (h.2.depth_lt hm hlt) (Nat.not_lt_zero m)
  · have hlen := hp.lt_length
    rw [List.length_take] at hlen
    have hj : j' < j := by omega
    exact ⟨j', hj, (partners_take hj).mp hp⟩

/-! ## Kinds that are counted down to nothing -/

/-- There every closing bracket has a partner. -/
theorem closed_of_counted (h : b.depthFrom 0 ks = some 0) (hj : ks[j]?.any b.closes = true) : ∃ i, b.Partners ks i j := by
  obtain ⟨k, hk, hc⟩ := (Option.any_eq_true ..).mp hj
  rw [split_at hk, depthFrom_append, Option.bind_eq_some_iff] at h
  obtain ⟨_ | n, hn, hrest⟩ := h
  · rw [depthFrom_zero hc] at hrest
    cases hrest
  · obtain ⟨i, hi⟩ := (openAt_iff_lt hn).mpr (Nat.succ_pos n)
    exact ⟨i, hj, hi⟩

/-- So has every opening bracket. -/
theorem opened_of_counted (h : b.depthFrom 0 ks = some 0) (hi : ks[i]?.any b.opens = true) : ∃ j, b.Partners ks i j := by
  refine (open_or_closed hi).resolve_left ?_
  rintro ⟨m, hm⟩
  exact Nat.not_lt_zero m ((openAt_iff_lt h).mp ⟨i, hm⟩)

/-! ## Brackets without a partner -/

/-- Some places are those of the brackets that are open, innermost first. -/
def OpenRow (b : Brackets) (ks : List TokenKind) (row : List Nat) : Prop := ∀ m i, row[m]? = some i ↔ b.OpenAt ks m i

variable {row : List Nat}

namespace OpenRow

/-- In front of the first lexeme nothing is open. -/
theorem nil : b.OpenRow [] [] := fun m i => ⟨fun h => by simp at h, fun h => absurd h.lt (Nat.not_lt_zero i)⟩

/-- Behind an opening bracket it is open, and what was. -/
theorem opening (h : b.OpenRow ks row) (hk : b.opens k = true) : b.OpenRow (ks ++ [k]) (ks.length :: row) := by
  intro m i
  rw [openAt_open hk]
  cases m with
  | zero => simp [eq_comm]
  | succ m => simpa using h m i

/-- Behind a closing bracket the last one that was open is so no more. -/
theorem closing (h : b.OpenRow ks row) (hk : b.closes k = true) : b.OpenRow (ks ++ [k]) row.tail := by
  intro m i
  rw [openAt_close hk, List.getElem?_tail]
  exact h (m + 1) i

/-- Behind anything else the same is open. -/
theorem other (h : b.OpenRow ks row) (ho : b.opens k = false) (hc : b.closes k = false) : b.OpenRow (ks ++ [k]) row := by
  intro m i
  rw [openAt_other ho hc]
  exact h m i

/-- Those further inside stand further behind. -/
theorem sorted (h : b.OpenRow ks row) : row.Pairwise (· > ·) := by
  rw [List.pairwise_iff_getElem]
  intro m n hm hn hlt
  have hinner := (h m _).mp (List.getElem?_eq_getElem hm)
  have houter := (h n _).mp (List.getElem?_eq_getElem hn)
  rcases Nat.lt_trichotomy row[n] row[m] with hl | he | hg
  · exact hl
  · rw [he] at houter
    have hsame : some m = some n := hinner.2.symm.trans houter.2
    cases hsame
    exact absurd hlt (Nat.lt_irrefl _)
  · exact absurd (hinner.depth_lt houter hg) (Nat.lt_asymm hlt)

end OpenRow

/-- A bracket is closed by none just if it is open at the end. -/
theorem loneOpen_iff : b.LoneOpen ks i ↔ ∃ m, b.OpenAt ks m i := by
  constructor
  · rintro ⟨hi, hnone⟩
    refine (open_or_closed hi).resolve_right ?_
    rintro ⟨j, hj⟩
    exact hnone j hj.lt_length hj
  · rintro ⟨m, hm⟩
    exact ⟨hm.1, fun j _ => hm.not_closed⟩

/-- The brackets that are closed by none are those that are open, the outermost first. -/
theorem loneOpens_eq (h : b.OpenRow ks row) : b.loneOpens ks = row.reverse := by
  have hmem : ∀ i, i ∈ b.loneOpens ks ↔ i ∈ row.reverse := by
    intro i
    rw [loneOpens, List.mem_filter, List.mem_range, decide_eq_true_iff, loneOpen_iff, List.mem_reverse, List.mem_iff_getElem?]
    constructor
    · rintro ⟨-, m, hm⟩
      exact ⟨m, (h m i).mpr hm⟩
    · rintro ⟨m, hm⟩
      have ho := (h m i).mp hm
      exact ⟨ho.lt, m, ho⟩
  have hleft : (b.loneOpens ks).Pairwise (· < ·) := List.pairwise_lt_range.filter _
  have hright : row.reverse.Pairwise (· < ·) := List.pairwise_reverse.mpr h.sorted
  exact hleft.eq_of_mem_iff hright hmem

/-- What comes behind a bracket does not matter to whether it closes one. -/
theorem loneClose_append (hj : j < ks.length) : b.LoneClose (ks ++ ks') j ↔ b.LoneClose ks j := by
  have hpartners : ∀ i, b.Partners (ks ++ ks') i j ↔ b.Partners ks i j := fun i => by
    rw [← partners_take hj, List.take_left]
  rw [LoneClose, LoneClose, List.getElem?_append_left hj]
  simp only [hpartners]

/-- A bracket at the end of a row closes none just if none is open. -/
theorem loneClose_concat (h : b.OpenRow ks row) (hk : b.closes k = true) : b.LoneClose (ks ++ [k]) ks.length ↔ row = [] := by
  rw [LoneClose, List.getElem?_concat_length]
  simp only [partners_concat hk]
  constructor
  · rintro ⟨-, hnone⟩
    cases row with
    | nil => rfl
    | cons i row =>
      have ho := (h 0 i).mp rfl
      exact absurd ho (hnone i ho.lt)
  · rintro rfl
    exact ⟨hk, fun i _ ho => by simpa using (h 0 i).mpr ho⟩

/-- What is no closing bracket closes none. -/
theorem not_loneClose_concat (hk : b.closes k = false) : ¬ b.LoneClose (ks ++ [k]) ks.length := by
  rintro ⟨hc, -⟩
  rw [List.getElem?_concat_length, Option.any_some, hk] at hc
  cases hc

/-- The brackets that close none are listed one by one. -/
theorem loneCloses_concat :
    b.loneCloses (ks ++ [k]) = b.loneCloses ks ++ if b.LoneClose (ks ++ [k]) ks.length then [ks.length] else [] := by
  have hfilter : (List.range ks.length).filter (b.LoneClose (ks ++ [k]) ·) = b.loneCloses ks := by
    refine List.filter_congr fun j hj => ?_
    rw [decide_eq_decide, loneClose_append (List.mem_range.mp hj)]
  rw [loneCloses, List.length_append, List.length_singleton, List.range_succ, List.filter_append, hfilter, List.filter_singleton]
  split <;> simp_all

end Brackets

end QueryStubs.Grammar
