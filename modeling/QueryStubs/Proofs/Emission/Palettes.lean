import QueryStubs.Stub.Emit

/-!
# Colours decide nothing

The palette of a configuration is looked at only when text is put together. Which stub a function has, and whether it has one, does not
depend on it, nor does the name of a container; so stubs fail to be written with the same fault whatever the palette
(`Module.emit_error_palette`).
-/

namespace QueryStubs

/-- One step after another fails if the first does, or if the first succeeds and the second fails. -/
theorem bind_eq_error_iff {ε α β : Type} {x : Except ε α} {k : α → Except ε β} {e : ε} :
    (x >>= k) = .error e ↔ x = .error e ∨ ∃ a, x = .ok a ∧ k a = .error e := by
  cases x with
  | error e' => simp [bind, Except.bind]
  | ok a => simp [bind, Except.bind]

variable {c : Config} (p : Palette)

/-- A function has the same stub, or the same fault, whatever the palette. -/
theorem Stub.ofFunction_palette (f : FunctionDecl) : Stub.ofFunction { c with palette := p } f = Stub.ofFunction c f := rfl

/-- So have functions in a row. -/
theorem Stub.mapM_palette (fs : List FunctionDecl) : fs.mapM (Stub.ofFunction { c with palette := p }) = fs.mapM (Stub.ofFunction c) :=
  congrArg fs.mapM (funext (Stub.ofFunction_palette p))

/-- Containers fail to be written with the same fault whatever the palette. -/
theorem containersOf_error_palette {names : List String} {gs : List NamespaceGroup} {fault : StubFault} :
    containersOf { c with palette := p } names gs = .error fault ↔ containersOf c names gs = .error fault := by
  induction gs generalizing names with
  | nil => exact ⟨nofun, nofun⟩
  | cons g gs ih =>
    have hname : g.containerName { c with palette := p } = g.containerName c := rfl
    simp only [containersOf, hname, Stub.mapM_palette]
    split
    · exact Iff.rfl
    · -- the containers themselves differ in colour, but an answer that is there is no fault
      simp only [bind_eq_error_iff, ih, reduceCtorEq, and_false, exists_false, or_false, pure, Except.pure]

/-- Stubs fail to be written with the same fault whatever the palette. -/
theorem Module.emit_error_palette {m : Module} {fault : StubFault} :
    m.emit { c with palette := p } = .error fault ↔ m.emit c = .error fault := by
  simp only [Module.emit, Stub.mapM_palette, bind_eq_error_iff, containersOf_error_palette, reduceCtorEq, and_false, exists_false, or_false,
    pure, Except.pure]

end QueryStubs
