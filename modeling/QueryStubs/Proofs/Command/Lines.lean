import Mathlib.Data.List.TakeWhile
import QueryStubs.Proofs.Command.Options

/-!
# Command lines as they are written

The ways to write a command line are a grammar: `Spelled` relates what is given, in any order, to the arguments that say it, with every form
that an option and its value can have. What the grammar derives is what is read, and nothing else is read to the end (`readLine_eq_iff`).
What can be given together is said of the things themselves and not of the order in which they are met (`Proper`). The two make up what a
command accepts (`CommandName.read_eq_ok_iff`).
-/

namespace QueryStubs.Command

section

variable {κ : Type} {specs : List (OptionSpec κ)} {behind : Option (OptionSpec κ) → Line κ}

/-! ## The grammar -/

/-- What a row of letters gives, and the option that it leaves waiting for its value. -/
inductive Row (specs : List (OptionSpec κ)) : List Char → List (Given κ) → Option (OptionSpec κ) → Prop
  | nil : Row specs [] [] none
  | flag {o c row given waiting} (ho : o ∈ specs) (hc : o.letter = some c) (ht : o.takes.isSome = false)
      (h : Row specs row given waiting) : Row specs (c :: row) (.flag o.key :: given) waiting
  | joined {o c d text} (ho : o ∈ specs) (hc : o.letter = some c) (ht : o.takes.isSome = true) (hd : d ≠ '=') :
      Row specs (c :: d :: text) [.value o.key (String.ofList (d :: text))] none
  | equals {o c text} (ho : o ∈ specs) (hc : o.letter = some c) (ht : o.takes.isSome = true) :
      Row specs (c :: '=' :: text) [.value o.key (String.ofList text)] none
  | waiting {o c} (ho : o ∈ specs) (hc : o.letter = some c) (ht : o.takes.isSome = true) : Row specs [c] [] (some o)

/-- What is given, and arguments that say it. A value stands behind the name of its option, or is the next argument. -/
inductive Spelled (specs : List (OptionSpec κ)) : List (Given κ) → List String → Prop
  | done : Spelled specs [] []
  | operands (texts : List String) : Spelled specs (texts.map .operand) ("--" :: texts)
  | operand {text given args} (ht : readsAsOption text = false) (h : Spelled specs given args) :
      Spelled specs (.operand text :: given) (text :: args)
  | flag {o given args} (ho : o ∈ specs) (ht : o.takes.isSome = false) (h : Spelled specs given args) :
      Spelled specs (.flag o.key :: given) (o.shown :: args)
  | attached {o given args} (ho : o ∈ specs) (ht : o.takes.isSome = true) (text : String) (h : Spelled specs given args) :
      Spelled specs (.value o.key text :: given) ((o.shown ++ "=" ++ text) :: args)
  | apart {o text given args} (ho : o ∈ specs) (ht : o.takes.isSome = true) (hv : readsAsOption text = false)
      (h : Spelled specs given args) : Spelled specs (.value o.key text :: given) (o.shown :: text :: args)
  | row {c row first given args} (hr : Row specs (c :: row) first none) (h : Spelled specs given args) :
      Spelled specs (first ++ given) (String.ofList ('-' :: c :: row) :: args)
  | rowApart {c row first o text given args} (hr : Row specs (c :: row) first (some o)) (hv : readsAsOption text = false)
      (h : Spelled specs given args) :
      Spelled specs (first ++ .value o.key text :: given) (String.ofList ('-' :: c :: row) :: text :: args)

/-- Options are told apart by what they are called, and what they are called can be read off an argument. -/
structure Distinct (specs : List (OptionSpec κ)) : Prop where
  long : ∀ o ∈ specs, ∀ k ∈ specs, k.long = o.long → k = o
  letter : ∀ o ∈ specs, ∀ k ∈ specs, k.letter = o.letter → o.letter ≠ none → k = o
  nonempty : ∀ o ∈ specs, o.long.toList ≠ []
  equals : ∀ o ∈ specs, ∀ c ∈ o.long.toList, c ≠ '='
  dash : ∀ o ∈ specs, o.letter ≠ some '-'

/-! ## What is derived is read -/

/-- What only one option can be is found. -/
theorem find?_of_unique {q : OptionSpec κ → Bool} {o : OptionSpec κ} (ho : o ∈ specs) (hq : q o = true)
    (hu : ∀ k ∈ specs, q k = true → k = o) : specs.find? q = some o := by
  obtain ⟨k, hk⟩ := Option.isSome_iff_exists.mp (List.find?_isSome.mpr ⟨o, ho, hq⟩)
  rw [hk, hu k (List.mem_of_find?_eq_some hk) (List.find?_some hk)]

theorem Distinct.find?_long (hd : Distinct specs) {o : OptionSpec κ} (ho : o ∈ specs) : specs.find? (·.long = o.long) = some o :=
  find?_of_unique ho (by simp) fun k hk h => hd.long o ho k hk (by simpa using h)

theorem Distinct.find?_letter (hd : Distinct specs) {o : OptionSpec κ} {c : Char} (ho : o ∈ specs) (hc : o.letter = some c) :
    specs.find? (·.letter = some c) = some o :=
  find?_of_unique ho (by simp [hc]) fun k hk h => hd.letter o ho k hk (by simpa [hc] using h) (by simp [hc])

/-- A long name ends at the equals sign behind it. -/
theorem Distinct.takeWhile_long (hd : Distinct specs) {o : OptionSpec κ} (ho : o ∈ specs) (rest : List Char) :
    (o.long.toList ++ '=' :: rest).takeWhile (· ≠ '=') = o.long.toList := by
  rw [List.takeWhile_append_of_pos fun c hc => by simpa using hd.equals o ho c hc]
  simp

theorem Distinct.attached?_long (hd : Distinct specs) {o : OptionSpec κ} (ho : o ∈ specs) (text : String) :
    attached? (o.long.toList ++ '=' :: text.toList) = some text := by
  rw [attached?, List.dropWhile_append_of_pos fun c hc => by simpa using hd.equals o ho c hc]
  simp

/-- Without one the name is all there is. -/
theorem Distinct.readLong_shown (hd : Distinct specs) {o : OptionSpec κ} (ho : o ∈ specs) :
    readLong specs behind o.long.toList = if o.takes.isSome then behind (some o) else .more (.flag o.key) (behind none) := by
  have hclear : ∀ c ∈ o.long.toList, (decide (c ≠ '=')) = true := fun c hc => by simpa using hd.equals o ho c hc
  have hname : o.long.toList.takeWhile (· ≠ '=') = o.long.toList := List.takeWhile_eq_self_iff.mpr hclear
  have hvalue : attached? o.long.toList = none := by
    rw [attached?, List.dropWhile_eq_nil_iff.mpr hclear]
  rw [readLong, hname, String.ofList_toList, hd.find?_long ho, hvalue]
  dsimp only
  cases ht : o.takes.isSome <;> rfl

/-- With one the value stands behind it. -/
theorem Distinct.readLong_attached (hd : Distinct specs) {o : OptionSpec κ} (ho : o ∈ specs) (ht : o.takes.isSome = true) (text : String) :
    readLong specs behind (o.long.toList ++ '=' :: text.toList) = .more (.value o.key text) (behind none) := by
  rw [readLong, hd.takeWhile_long ho, String.ofList_toList, hd.find?_long ho, hd.attached?_long ho]
  simp only [ht]

/-- A row is read as what it gives, and then what is behind it. -/
theorem Row.read (hd : Distinct specs) {row : List Char} {given : List (Given κ)} {waiting : Option (OptionSpec κ)}
    (h : Row specs row given waiting) : readLetters specs behind row = given.foldr .more (behind waiting) := by
  induction h with
  | nil => rfl
  | flag ho hc ht _ ih =>
    simp only [readLetters, hd.find?_letter ho hc, ht, Bool.false_eq_true, if_false, ih]
    rfl
  | joined ho hc ht hne =>
    simp only [readLetters, hd.find?_letter ho hc, ht, if_true]
    split
    · next h => cases h
    · next h => exact absurd (List.cons.inj h).1 hne
    · rfl
  | equals ho hc ht | waiting ho hc ht =>
    simp only [readLetters, hd.find?_letter ho hc, ht, if_true]
    rfl

/-- No row begins with a second dash. -/
theorem Row.first_ne (hd : Distinct specs) {c : Char} {row : List Char} {given : List (Given κ)} {waiting : Option (OptionSpec κ)}
    (h : Row specs (c :: row) given waiting) : c ≠ '-' := by
  rintro rfl
  cases h with
  | flag ho hc | joined ho hc | equals ho hc | waiting ho hc => exact hd.dash _ ho hc

/-- An argument that begins with two dashes is read as a long name. -/
theorem readFrom_long {body : List Char} {arg : String} (hbody : body ≠ []) (harg : arg.toList = '-' :: '-' :: body) (args : List String) :
    readFrom specs none (arg :: args) = readLong specs (fun waiting => readFrom specs waiting args) body := by
  have hne : arg ≠ "--" := by
    rintro rfl
    exact hbody (by simpa using harg.symm)
  rw [readFrom, if_neg hne, readArgument, harg]
  rfl

/-- One that begins with a single dash is read as a row. -/
theorem readFrom_row {c : Char} {row : List Char} (hc : c ≠ '-') (args : List String) :
    readFrom specs none (String.ofList ('-' :: c :: row) :: args) =
      readLetters specs (fun waiting => readFrom specs waiting args) (c :: row) := by
  have hne : String.ofList ('-' :: c :: row) ≠ "--" := by
    intro h
    have hlist : '-' :: c :: row = ['-', '-'] := by simpa using congrArg String.toList h
    exact hc (List.cons.inj (List.cons.inj hlist).2).1
  rw [readFrom, if_neg hne, readArgument, String.toList_ofList]
  split
  · next h => exact absurd (List.cons.inj (List.cons.inj h).2).1 hc
  · next h =>
    cases h
    rfl
  · next h => exact absurd rfl (h c row)

/-- Any other argument is an operand. -/
theorem readFrom_operand {text : String} (ht : readsAsOption text = false) (args : List String) :
    readFrom specs none (text :: args) = .more (.operand text) (readFrom specs none args) := by
  have hne : text ≠ "--" := by
    rintro rfl
    exact absurd ht (by decide)
  rw [readFrom, if_neg hne]
  unfold readsAsOption at ht
  unfold readArgument
  split at ht
  · cases ht
  · next h =>
    split
    · next h' => exact absurd h' (h _ _)
    · next h' => exact absurd h' (h _ _)
    · rfl

theorem Line.ofList_append (first rest : List (Given κ)) : Line.ofList (first ++ rest) = first.foldr .more (.ofList rest) :=
  List.foldr_append

/-- An option is shown with two dashes in front of its long name. -/
theorem OptionSpec.toList_shown (o : OptionSpec κ) : o.shown.toList = '-' :: '-' :: o.long.toList := by
  simp [OptionSpec.shown]

/-- What is derived is read. -/
theorem Spelled.read (hd : Distinct specs) {given : List (Given κ)} {args : List String} (h : Spelled specs given args) :
    readLine specs args = .ofList given := by
  unfold readLine
  induction h with
  | done => rfl
  | operands texts => simp [readFrom]
  | operand ht _ ih =>
    rw [readFrom_operand ht, ih]
    rfl
  | flag ho ht _ ih =>
    rw [readFrom_long (hd.nonempty _ ho) (OptionSpec.toList_shown _), hd.readLong_shown ho, ht, ih]
    rfl
  | @attached o given args ho ht text _ ih =>
    have harg : (o.shown ++ "=" ++ text).toList = '-' :: '-' :: (o.long.toList ++ '=' :: text.toList) := by simp [OptionSpec.shown]
    rw [readFrom_long (by simp) harg, hd.readLong_attached ho ht, ih]
    rfl
  | apart ho ht hv _ ih =>
    rw [readFrom_long (hd.nonempty _ ho) (OptionSpec.toList_shown _), hd.readLong_shown ho, ht, if_pos rfl, readFrom, hv, ih]
    rfl
  | row hr _ ih =>
    rw [readFrom_row (hr.first_ne hd), hr.read hd, ih, Line.ofList_append]
  | rowApart hr hv _ ih =>
    rw [readFrom_row (hr.first_ne hd), hr.read hd, readFrom, if_neg (by simp [hv]), ih, Line.ofList_append]
    rfl

/-! ## What is read is derived -/

/-- A line that gives one thing and then others is that of a list. -/
theorem Line.more_eq_ofList_iff {g : Given κ} {rest : Line κ} {given : List (Given κ)} :
    Line.more g rest = .ofList given ↔ ∃ given', given = g :: given' ∧ rest = .ofList given' := by
  constructor
  · intro h
    cases given with
    | nil => cases h
    | cons g' given' =>
      obtain ⟨rfl, hrest⟩ := Line.more.inj h
      exact ⟨given', rfl, hrest⟩
  · rintro ⟨given', rfl, rfl⟩
    rfl

theorem Line.ofList_injective : Function.Injective (Line.ofList : List (Given κ) → Line κ) := by
  intro given
  induction given with
  | nil =>
    intro given' h
    cases given' with
    | nil => rfl
    | cons g given' => cases h
  | cons g given ih =>
    intro given' h
    obtain ⟨rest, rfl, hrest⟩ := Line.more_eq_ofList_iff.mp h
    rw [ih hrest]

/-- A line that is refused is not that of a list. -/
theorem Line.fault_ne_ofList (f : UsageFault) (given : List (Given κ)) : Line.fault f ≠ .ofList given := by
  cases given <;> nofun

/-- A row that is read to the end gives what rows give, and what is behind it is read to the end too. -/
theorem Row.of_read {row : List Char} {given : List (Given κ)} (h : readLetters specs behind row = .ofList given) :
    ∃ first waiting rest, Row specs row first waiting ∧ given = first ++ rest ∧ behind waiting = .ofList rest := by
  induction row generalizing given with
  | nil => exact ⟨[], none, given, .nil, rfl, h⟩
  | cons c row ih =>
    rw [readLetters] at h
    split at h
    · exact absurd h (Line.fault_ne_ofList _ _)
    · next o hfind =>
      have ho := List.mem_of_find?_eq_some hfind
      have hc : o.letter = some c := by simpa using List.find?_some hfind
      split at h
      · next ht =>
        split at h
        · exact ⟨[], some o, given, .waiting ho hc ht, rfl, h⟩
        · obtain ⟨rest, rfl, hrest⟩ := Line.more_eq_ofList_iff.mp h
          exact ⟨_, none, rest, .equals ho hc ht, rfl, hrest⟩
        · next hnil hequals =>
          obtain ⟨rest, rfl, hrest⟩ := Line.more_eq_ofList_iff.mp h
          cases row with
          | nil => exact absurd rfl hnil
          | cons d text => exact ⟨_, none, rest, .joined ho hc ht (fun hd => hequals text (by rw [hd])), rfl, hrest⟩
      · next ht =>
        obtain ⟨given', rfl, hletters⟩ := Line.more_eq_ofList_iff.mp h
        obtain ⟨first, waiting, rest, hrow, rfl, hrest⟩ := ih hletters
        exact ⟨_, waiting, rest, .flag ho hc (Bool.not_eq_true _ ▸ ht) hrow, rfl, hrest⟩

/-- A long name that is read to the end is that of an option, with its value behind it if it has one there. -/
theorem shown_of_readLong {body : List Char} {given : List (Given κ)} (h : readLong specs behind body = .ofList given) :
    ∃ o ∈ specs,
      (o.takes.isSome = false ∧ body = o.long.toList ∧ ∃ rest, given = .flag o.key :: rest ∧ behind none = .ofList rest) ∨
      (o.takes.isSome = true ∧ body = o.long.toList ∧ behind (some o) = .ofList given) ∨
      (o.takes.isSome = true ∧ ∃ text rest, body = o.long.toList ++ '=' :: text ∧ given = .value o.key (String.ofList text) :: rest ∧
        behind none = .ofList rest) := by
  unfold readLong at h
  dsimp only at h
  split at h
  · exact absurd h (Line.fault_ne_ofList _ _)
  · next o hfind =>
    have hname : o.long = String.ofList (body.takeWhile (· ≠ '=')) := by
      simpa using List.find?_some hfind
    have hlong : o.long.toList = body.takeWhile (· ≠ '=') := by rw [hname, String.toList_ofList]
    have hbody : o.long.toList ++ body.dropWhile (· ≠ '=') = body := by rw [hlong, List.takeWhile_append_dropWhile]
    refine ⟨o, List.mem_of_find?_eq_some hfind, ?_⟩
    unfold attached? at h
    cases hrest : body.dropWhile (· ≠ '=') with
    | nil =>
      rw [hrest, List.append_nil] at hbody
      rw [hrest] at h
      cases ht : o.takes.isSome with
      | true =>
        rw [ht] at h
        exact .inr (.inl ⟨rfl, hbody.symm, h⟩)
      | false =>
        rw [ht] at h
        obtain ⟨rest, rfl, hrest⟩ := Line.more_eq_ofList_iff.mp h
        exact .inl ⟨rfl, hbody.symm, rest, rfl, hrest⟩
    | cons c text =>
      have hne : body.dropWhile (· ≠ '=') ≠ [] := hrest ▸ List.cons_ne_nil c text
      have hhead := List.head_dropWhile_not (· ≠ '=') hne
      simp only [hrest, List.head_cons] at hhead
      obtain rfl : c = '=' := by simpa using hhead
      rw [hrest] at h hbody
      cases ht : o.takes.isSome with
      | true =>
        rw [ht] at h
        obtain ⟨rest, rfl, hbehind⟩ := Line.more_eq_ofList_iff.mp h
        exact .inr (.inr ⟨rfl, text, rest, hbody.symm, rfl, hbehind⟩)
      | false =>
        rw [ht] at h
        exact absurd h (Line.fault_ne_ofList _ _)

/-- What is spelled behind an option that waits for its value, if one does: the value comes first then. -/
def SpelledBehind (specs : List (OptionSpec κ)) : Option (OptionSpec κ) → List (Given κ) → List String → Prop
  | none, given, args => Spelled specs given args
  | some o, given, args => ∃ text args' given', args = text :: args' ∧ given = .value o.key text :: given' ∧ readsAsOption text = false ∧
      Spelled specs given' args'

/-- An argument that is not two dashes alone is read as it is spelled, if what is behind it is. -/
theorem spelled_of_readArgument {arg : String} {args : List String} {given : List (Given κ)}
    (hbehind : ∀ {waiting given}, readFrom specs waiting args = .ofList given → SpelledBehind specs waiting given args)
    (h : readArgument specs (fun waiting => readFrom specs waiting args) arg = .ofList given) : Spelled specs given (arg :: args) := by
  unfold readArgument at h
  split at h
  · next body harg =>
    obtain ⟨o, ho, hflag | hwaits | hattached⟩ := shown_of_readLong h
    · obtain ⟨ht, rfl, rest, rfl, hrest⟩ := hflag
      obtain rfl : arg = o.shown := String.toList_injective (harg.trans o.toList_shown.symm)
      exact .flag ho ht (hbehind hrest)
    · obtain ⟨ht, rfl, hrest⟩ := hwaits
      obtain ⟨text, args', given', rfl, rfl, hv, hs⟩ := hbehind hrest
      obtain rfl : arg = o.shown := String.toList_injective (harg.trans o.toList_shown.symm)
      exact .apart ho ht hv hs
    · obtain ⟨ht, text, rest, rfl, rfl, hrest⟩ := hattached
      obtain rfl : arg = o.shown ++ "=" ++ String.ofList text :=
        String.toList_injective (harg.trans (by simp [OptionSpec.shown]))
      exact .attached ho ht _ (hbehind hrest)
  · next c row _ harg =>
    obtain ⟨first, waiting, rest, hrow, rfl, hrest⟩ := Row.of_read h
    obtain rfl : arg = String.ofList ('-' :: c :: row) := by rw [← harg, String.ofList_toList]
    cases waiting with
    | none => exact .row hrow (hbehind hrest)
    | some o =>
      obtain ⟨text, args', given', rfl, rfl, hv, hs⟩ := hbehind hrest
      exact .rowApart hrow hv hs
  · next hlong hrow =>
    obtain ⟨rest, rfl, hrest⟩ := Line.more_eq_ofList_iff.mp h
    refine .operand ?_ (hbehind hrest)
    unfold readsAsOption
    split
    · next c row harg => exact absurd harg (hrow c row)
    · rfl

/-- What is read is derived, whether or not an option waits for its value. -/
theorem spelled_of_readFrom {waiting : Option (OptionSpec κ)} {given : List (Given κ)} {args : List String}
    (h : readFrom specs waiting args = .ofList given) : SpelledBehind specs waiting given args := by
  induction args generalizing waiting given with
  | nil =>
    cases waiting with
    | none =>
      obtain rfl : [] = given := Line.ofList_injective h
      exact .done
    | some o => exact absurd h (Line.fault_ne_ofList _ _)
  | cons arg args ih =>
    cases waiting with
    | none =>
      rw [readFrom] at h
      split at h
      · next hdashes =>
        subst hdashes
        obtain rfl : args.map .operand = given := Line.ofList_injective h
        exact .operands args
      · exact spelled_of_readArgument ih h
    | some o =>
      rw [readFrom] at h
      split at h
      · exact absurd h (Line.fault_ne_ofList _ _)
      · next hv =>
        obtain ⟨rest, rfl, hrest⟩ := Line.more_eq_ofList_iff.mp h
        exact ⟨arg, args, rest, rfl, rfl, Bool.not_eq_true _ ▸ hv, ih hrest⟩

/-- A command line is read to its end as some things if it spells them, and only then. -/
theorem readLine_eq_iff (hd : Distinct specs) {given : List (Given κ)} {args : List String} :
    readLine specs args = .ofList given ↔ Spelled specs given args :=
  ⟨spelled_of_readFrom, Spelled.read hd⟩

end

end QueryStubs.Command
