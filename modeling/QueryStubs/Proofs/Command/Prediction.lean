import Mathlib
import QueryStubs.Command.Run
import QueryStubs.Proofs.Command.Options
import QueryStubs.Proofs.Emission.Palettes

/-!
# A check says how the writing of stubs will end

To check a module and to write its stubs are two runs that do the same things in another order: the one reads the table of types after the
source is looked at, the other before, and only the other writes in colours. They end alike all the same (`check_ending`), because a run
fails with the same status whatever it fails for, and colours decide nothing about what can be written. On a command line that asks for
nothing else, the exit status of a check is that of the writing (`check_predicts_gen`).
-/

namespace QueryStubs.Command

/-- The configurations of options with colours and without differ in the palette alone. -/
theorem StubOptions.config_palette (o : StubOptions) (colored : Bool) (types : TypeTable) :
    o.config colored types = { o.config false types with palette := .ofFlag colored } := rfl

/-- Stubs that can be written without colours can be written with them. -/
theorem StubOptions.emits {m : Module} {o : StubOptions} {types : TypeTable} {text : String} (colored : Bool)
    (h : m.emit (o.config false types) = .ok text) : ∃ text', m.emit (o.config colored types) = .ok text' := by
  cases hc : m.emit (o.config colored types) with
  | ok text' => exact ⟨text', rfl⟩
  | error fault =>
    rw [config_palette, Module.emit_error_palette, h] at hc
    cases hc

section

variable (s : Surroundings) (c : Common) (o : StubOptions) (strict : Bool)

/-- A check and the writing of stubs end alike. -/
theorem check_ending : (check s c o strict false).ending = (gen s c o strict none).ending := by
  unfold check gen
  generalize (Option.isNone (none : Option String) && c.color.isColored s.onTerminal) = colored
  cases c.input.load s with
  | error message => rfl
  | ok source =>
    simp only [Bool.false_eq_true, if_false]
    cases o.table s with
    | error message =>
      -- the table is missed by the one before the source is looked at and by the other after that
      cases refused strict (Parsed.ofSource source.text) <;> rfl
    | ok types =>
      cases refused strict (Parsed.ofSource source.text) with
      | true => rfl
      | false =>
        simp only [Bool.false_eq_true, if_false]
        cases hplain : (Parsed.ofSource source.text).module.emit (o.config false types) with
        | error fault =>
          have hcolored := (Module.emit_error_palette (.ofFlag colored)).mpr hplain
          rw [← StubOptions.config_palette] at hcolored
          simp only [hcolored]
          rfl
        | ok text =>
          obtain ⟨text', hcolored⟩ := StubOptions.emits colored hplain
          simp only [hcolored]

/-- Where stubs are not written to the end, nothing is printed. -/
theorem gen_stdout (output : Option String) : (gen s c o strict output).stdout = "" ∨ (gen s c o strict output).ending = .exit 0 := by
  unfold gen
  cases c.input.load s with
  | error message => exact .inl rfl
  | ok source =>
    cases o.table s with
    | error message => exact .inl rfl
    | ok types =>
      dsimp only
      split
      · exact .inl rfl
      · split
        · exact .inl rfl
        · cases output with
          | none => exact .inr rfl
          | some path => exact .inl rfl

end

/-- What was printed stays so however a run ends. -/
theorem Plan.stdout_finish (p : Plan) (folder : Folder) : (p.finish folder).stdout = p.stdout := by
  unfold finish
  split
  · rfl
  · split <;> rfl

/-- The exit status depends on how a run ends, not on what was printed. -/
theorem Plan.status_finish {p q : Plan} (h : p.ending = q.ending) (folder : Folder) : (p.finish folder).status = (q.finish folder).status := by
  unfold finish
  rw [h]
  cases q.ending with
  | exit status => rfl
  | save path text =>
    dsimp only
    cases folder.write path text <;> rfl

/-- Whatever the command line and wherever it is run: where stubs are asked for and the run fails, nothing is printed; and where no options
are named but those that checking and writing share, a check ends with the exit status that the writing of stubs ends with. -/
theorem check_predicts_gen (s : Surroundings) (folder : Folder) (args : List String) :
    (((run s ("gen" :: args)).finish folder).status ≠ 0 → ((run s ("gen" :: args)).finish folder).stdout = "") ∧
      (Shared args → ((run s ("check" :: args)).finish folder).status = ((run s ("gen" :: args)).finish folder).status) := by
  refine ⟨fun hstatus => ?_, fun hshared => Plan.status_finish ?_ folder⟩
  · rw [Plan.stdout_finish]
    unfold run at hstatus ⊢
    cases hparse : Request.parse ("gen" :: args) with
    | error f => rfl
    | ok r =>
      simp only [hparse] at hstatus ⊢
      rcases Request.parse_gen hparse with rfl | ⟨c, o, strict, output, rfl⟩
      · exact absurd rfl hstatus
      · refine (gen_stdout s c o strict output).resolve_right fun hending => hstatus ?_
        exact Plan.status_finish (q := { ending := .exit 0 }) hending folder
  · unfold run
    rcases Request.parse_shared hshared with ⟨c, o, strict, hgen, hcheck⟩ | ⟨hgen, hcheck⟩ | ⟨f, hgen, hcheck⟩
    · simp only [hgen, hcheck]
      exact check_ending s c o strict
    · simp only [hgen, hcheck]
    · simp only [hgen, hcheck]

/-- A function that has no type of its result, to be written in colours. -/
def untyped : List String := ["--strict", "--color", "always", "-q", "declare function f() external;"]

set_option maxRecDepth 10000 in
/-- A check of that function fails as the writing of its stub does, which prints nothing. -/
theorem check_predicts_gen_untyped :
    Shared untyped ∧ ((run { read := fun _ => .error .notFound } ("check" :: untyped)).finish {}).status = 1 ∧
      ((run { read := fun _ => .error .notFound } ("gen" :: untyped)).finish {}).stdout = "" := by
  let s : Surroundings := { read := fun _ => .error .notFound }
  have hread : readArguments (sharedKeys.map OptionKey.spec) untyped =
      .ok [.flag .strict, .value .color "always", .value .query "declare function f() external;"] := by
    rfl
  have hshared : Shared untyped := by
    intro name hr
    rw [hread] at hr
    cases hr
  have hstatus : ((run s ("gen" :: untyped)).finish {}).status = 1 := by
    have hparse : Request.parse ("gen" :: untyped) =
        .ok (.gen ⟨.query "declare function f() external;", 0, .always⟩ ⟨none, false, .angle, none, none⟩ true none) := by
      rfl
    have haccepted : refused true (Parsed.ofSource "declare function f() external;") = false := by cbv
    have hfault : (Parsed.ofSource "declare function f() external;").module.emit
        (StubOptions.config ⟨none, false, .angle, none, none⟩ true .standard) = .error (.missingType "f" none) := by
      cbv
    have hload : InputChoice.load s (.query "declare function f() external;") = .ok ⟨"<query>", "declare function f() external;"⟩ := rfl
    have htable : StubOptions.table s ⟨none, false, .angle, none, none⟩ = .ok .standard := rfl
    refine Plan.status_finish (q := { ending := .exit 1 }) ?_ {}
    have hcolored : (Option.isNone (none : Option String) && ColorChoice.isColored s.onTerminal .always) = true := rfl
    rw [run, hparse]
    simp only [Request.run, gen, hload, htable, haccepted, Bool.false_eq_true, if_false, hcolored, hfault]
    rfl
  obtain ⟨hstdout, hpredicts⟩ := check_predicts_gen s {} untyped
  exact ⟨hshared, (hpredicts hshared).trans hstatus, hstdout (hstatus ▸ Nat.one_ne_zero)⟩

end QueryStubs.Command
