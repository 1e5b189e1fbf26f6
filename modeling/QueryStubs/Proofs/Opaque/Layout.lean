import QueryStubs.Proofs.Opaque.Prolog

/-!
# What stands around a prolog

The tree of a source without errors is a prolog with something in front and something behind (`Parsed.Around`). Another prolog can be put in
its place: a source with the tokens of the new tree is read without an error, and as this tree (`Parsed.around_of_faultless`). The new
prolog has to hold a declaration at least, for its first word keeps what follows from being mistaken for a version or a module declaration.
-/

namespace QueryStubs

open Grammar
open QueryStubs.Tree (constructs)

/-- A row starts with a token that is no trivia if its first tree does. -/
theorem Fronted.node {kind : NodeKind} {us ts : List Tree} (h : Fronted us) : Fronted (.node kind us :: ts) := by
  obtain ⟨u, rest, hu, htrivia⟩ := h
  exact ⟨u, rest ++ tokensOf ts, by simp [hu], htrivia⟩

/-- The tokens of the trees do not start with trivia. -/
def Headed (us : List Tree) : Prop := ∀ t, (tokensOf us).head? = some t → t.isTrivia = false

/-- What comes in the place of the end of a row does not start the row with trivia. -/
theorem Headed.replace {A us vs : List Tree} (h : Headed (A ++ us)) (hv : Fronted vs) : Headed (A ++ vs) := by
  obtain ⟨u, ts, hu, htrivia⟩ := hv
  intro t ht
  rw [tokensOf_append] at ht
  cases hA : tokensOf A with
  | nil =>
    rw [hA, hu] at ht
    exact Option.some.inj ht ▸ htrivia
  | cons x xs =>
    rw [hA] at ht
    exact h t (by rw [tokensOf_append, hA]; exact ht)

/-- Trees that start with a token that is no trivia have a token, and so has every row that ends with them. -/
theorem Fronted.tokens_ne_nil {us : List Tree} (h : Fronted us) (A : List Tree) : tokensOf (A ++ us) ≠ [] := by
  obtain ⟨t, ts, ht, -⟩ := h
  rw [tokensOf_append, ht]
  exact List.append_ne_nil_of_right_ne_nil _ (List.cons_ne_nil _ _)

theorem fronted_iff {us : List Tree} : Fronted us ↔ tokensOf us ≠ [] ∧ Headed us := by
  refine ⟨fun h => ⟨h.tokens_ne_nil [], ?_⟩, fun ⟨hne, h⟩ => ?_⟩
  · obtain ⟨t, ts, ht, htrivia⟩ := h
    intro u hu
    rw [ht] at hu
    exact Option.some.inj hu ▸ htrivia
  · obtain ⟨t, ts, ht⟩ := List.exists_cons_of_ne_nil hne
    exact ⟨t, ts, ht, h t (by rw [ht]; rfl)⟩

/-- What comes in the place of the end of a row does not change with what the row starts. -/
theorem Fronted.replace {A us vs : List Tree} (h : Fronted (A ++ us)) (hv : Fronted vs) : Fronted (A ++ vs) :=
  fronted_iff.mpr ⟨hv.tokens_ne_nil A, (fronted_iff.mp h).2.replace hv⟩

namespace Grammar

/-! ## The words that come next -/

/-- The tokens ahead are those that are left, but for trivia. -/
theorem Outlook.Lexical.tokens_ahead {o : Outlook} (h : o.Lexical) : o.ahead.map (·.token) = o.left.filter (!·.isTrivia) := by
  have hnone : ∀ {ts}, Token.AllTrivia ts → ts.filter (!·.isTrivia) = [] := fun h => List.filter_eq_nil_iff.mpr fun t ht => by simp [h t ht]
  obtain ⟨ahead, tail, reached⟩ := o
  rw [left, List.filter_append, hnone h.tail, List.append_nil]
  induction ahead with
  | nil => rfl
  | cons l ls ih =>
    have hl := (h.tokens l (List.mem_cons_self ..)).1
    rw [List.map_cons, ih h.tail_cons, List.flatMap_cons, Lexeme.tokens, List.filter_append, List.filter_append,
      hnone (h.leads l (List.mem_cons_self ..))]
    simp [hl]

/-- So are the tokens of an outlook on some. -/
theorem tokens_look (offset reached : Nat) (ts : List Token) :
    (look offset reached ts).ahead.map (·.token) = ts.filter (!·.isTrivia) := by
  have hsplit : ∀ lead, (Lexeme.split offset lead ts).1.map (·.token) = ts.filter (!·.isTrivia) := by
    intro lead
    fun_induction Lexeme.split offset lead ts with
    | case1 => rfl
    | case2 _ _ t _ ht ih => rw [ih, List.filter_cons, if_neg (by simp [ht])]
    | case3 _ _ t _ ht _ _ he ih =>
      rw [he] at ih
      rw [List.map_cons, ih, List.filter_cons, if_pos (by simp [ht])]
  exact hsplit []

/-- There is one word only in a place. -/
theorem IsWordAt.unique {i : Nat} {word word' : String} {ts : List Token} (h : IsWordAt i word ts) (h' : IsWordAt i word' ts) :
    word = word' := by
  unfold IsWordAt at h h'
  cases ht : ts[i]? with
  | none => simp [ht] at h
  | some t =>
    simp only [ht, Option.any_some, Token.isWord, Bool.and_eq_true, decide_eq_true_eq] at h h'
    exact h.2.symm.trans h'.2

/-- What starts as a module declaration does not start as a version declaration. -/
theorem StartsModule.not_version {ts : List Token} (h : StartsModule ts) : ¬ StartsVersion ts :=
  fun hv => absurd (h.1.unique hv.1) (by decide)

/-- Nor does what starts as a declaration of a prolog, and not as a module declaration either. -/
theorem StartsDecl.not_version {ts : List Token} (h : StartsDecl ts) : ¬ StartsVersion ts := by
  rintro ⟨hv, -⟩
  rcases h with h | h <;> exact absurd (h.unique hv) (by decide)

theorem StartsDecl.not_module {ts : List Token} (h : StartsDecl ts) : ¬ StartsModule ts := by
  rintro ⟨hm, -⟩
  rcases h with h | h <;> exact absurd (h.unique hm) (by decide)

/-- A prolog that is not empty starts with a declaration. -/
theorem startsDecl_of_prolog {o o' : Outlook} {ps : List Tree} (h : Form.prolog.Builds o ps o') (hps : tokensOf ps ≠ []) :
    StartsDecl (o.ahead.map (·.token)) := by
  have hdecl : ∀ {kinds p us p'}, (∀ kind ∈ kinds, IsDecl kind) → (Form.declOf kinds).Builds p us p' →
      StartsDecl (p.ahead.map (·.token)) := by
    intro kinds p us p' hkinds hb
    obtain ⟨kind, hk, hb⟩ := Form.declOf_iff.mp hb
    rw [startsDecl_iff, declAhead_of_words (hkinds kind hk) (words_of_declared hb)]
    exact nofun
  cases h with
  | seq hs ho =>
    cases hs with
    | manyCons hb => exact hdecl (fun _ => .inl) hb
    | manyNil =>
      cases ho with
      | manyCons hb => exact hdecl (fun _ => .inr) hb
      | manyNil => exact absurd rfl hps

/-! ## The parts around it -/

/-- What is built of a form has no node of a kind that the form does not have. -/
theorem Form.Builds.avoids {f : Form} {o o' : Outlook} {ts : List Tree} (h : f.Builds o ts o') (ho : o.Scanned) {kind : NodeKind}
    (hk : kind ∉ f.kinds) : ∀ c ∈ constructs ts, c.1 ≠ kind := by
  rintro c hc rfl
  exact hk ((h.makes ho.lexical).kinds _ (Tree.mem_kindsOf hc (List.mem_cons_self ..)))

/-- A text can be cut behind a declaration. -/
theorem closed_of_declared {kind : NodeKind} {f : Form} {o o' : Outlook} {ts : List Tree} (h : (Form.declared kind f).Builds o ts o')
    (ho : o.Scanned) : Token.Closed (tokensOf ts) := by
  cases h with
  | node h =>
    rw [tokensOf_append, tokensOf_trivia ho.lexical.trivia, tokensOf_cons, Tree.tokens_node, tokensOf_nil, List.append_nil]
    exact ho.lexical.trivia.closed.append (closed_of_semicolon h.ends)

/-- The version declaration, or none, can be built again before what does not start as one. -/
theorem version_again {o o' : Outlook} {vs : List Tree} (h : Form.version.Builds o vs o') (ho : o.Scanned) {rest : List Token}
    (hrest : ¬ StartsVersion (rest.filter (!·.isTrivia))) (offset reached : Nat) :
    ∃ offset' reached', Form.version.Builds (look offset reached (tokensOf vs ++ rest)) vs (look offset' reached' rest) := by
  cases h with
  | first h =>
    obtain ⟨offset', reached', hb⟩ := h.spells rfl ho offset reached rest
    exact ⟨offset', reached', .first hb⟩
  | second h =>
    cases h with
    | guard _ h =>
      cases h
      exact ⟨offset, reached, .second (.guard (tokens_look offset reached rest ▸ hrest) (.nothing _))⟩

/-- What comes behind the prolog of a main module can be built anywhere. -/
theorem queryBody_spells {o o' : Outlook} {bs : List Tree} (h : Form.queryBody.Builds o bs o') (ho : o.Scanned) : Spells .queryBody bs := by
  cases h with
  | second h =>
    cases h
    exact .second .nothing
  | @first _ _ _ _ ts h =>
    cases h with
    | @node _ _ _ _ us h =>
      have hne : tokensOf us ≠ [] := by
        generalize o.placed = p at h
        cases h with
        | @run _ run _ _ _ hp =>
          cases run with
          | nil => exact absurd rfl hp.1
          | cons l run => simp [Lexeme.tokens, leavesFor]
      exact .first (.node_behind ho.lexical.trivia _ (h.spells rfl ho.placed) (h.fronted ho.placed o.trivia_placed hne))

/-- A module without its version declaration. -/
def Form.unversioned : Form := .either .libraryModule (.guard (¬ StartsModule ·) .mainModule)

/-- A module declaration can be built again before another prolog. -/
theorem library_again {o o' : Outlook} {ds : List Tree} (h : (Form.declared .moduleDecl .moduleBody).Builds o ds o') (ho : o.Scanned)
    {ps : List Tree} (hps : Spells .prolog ps) (tail : List Token) (offset reached : Nat) :
    ¬ StartsVersion ((tokensOf ds ++ (tokensOf ps ++ tail)).filter (!·.isTrivia)) ∧
      ∃ offset' reached', Form.unversioned.Builds (look offset reached (tokensOf ds ++ (tokensOf ps ++ tail)))
        (ds ++ [.node .prolog ps]) (look offset' reached' tail) := by
  obtain ⟨offset₁, reached₁, hd⟩ := h.spells rfl ho offset reached (tokensOf ps ++ tail)
  obtain ⟨offset₂, reached₂, hp⟩ := hps offset₁ reached₁ tail
  have hstarts := startsModule_of_builds hd
  rw [tokens_look] at hstarts
  exact ⟨hstarts.not_version, offset₂, reached₂, .first (.seq hd (.leadNode hp))⟩

/-- A query body can be built again behind another prolog. -/
theorem main_again {o o' : Outlook} {bs : List Tree} (h : (Form.guard (¬ StartsDecl ·) .queryBody).Builds o bs o') (ho : o.Scanned)
    (hend : o'.ahead = []) {w : List Token} (hw : Token.AllTrivia w) {ps : List Tree} (hps : Spells .prolog ps) (hne : tokensOf ps ≠ [])
    (hhead : Headed ps) (offset reached : Nat) :
    ¬ StartsVersion ((w ++ (tokensOf ps ++ (tokensOf bs ++ o'.tail))).filter (!·.isTrivia)) ∧
      ∃ offset' reached', Form.unversioned.Builds (look offset reached (w ++ (tokensOf ps ++ (tokensOf bs ++ o'.tail))))
        (leavesFor w ++ .node .prolog ps :: bs) (look offset' reached' o'.tail) := by
  have hleft : o.left = tokensOf bs ++ o'.tail := by
    rw [h.left ho.names, Outlook.left, hend]
    rfl
  cases h with
  | guard hT h =>
    rw [ho.lexical.tokens_ahead, hleft] at hT
    have hfirst : ∀ t, (tokensOf ps ++ (tokensOf bs ++ o'.tail)).head? = some t → t.isTrivia = false := by
      intro t ht
      rw [List.head?_append_of_ne_nil _ hne] at ht
      exact hhead t ht
    obtain ⟨start, hnode⟩ := builds_node hw hfirst offset reached
    obtain ⟨offset₁, reached₁, hb⟩ := hps start reached (tokensOf bs ++ o'.tail)
    obtain ⟨offset₂, reached₂, hq⟩ := queryBody_spells h ho offset₁ reached₁ o'.tail
    have hstarts : StartsDecl ((w ++ (tokensOf ps ++ (tokensOf bs ++ o'.tail))).filter (!·.isTrivia)) := by
      have hnone : w.filter (!·.isTrivia) = [] := List.filter_eq_nil_iff.mpr fun t ht => by simp [hw t ht]
      rw [List.filter_append, hnone, List.nil_append, ← tokens_look start reached]
      exact startsDecl_of_prolog hb hne
    refine ⟨hstarts.not_version, offset₂, reached₂, .second (.guard ?_ ?_)⟩
    · rw [tokens_look]
      exact hstarts.not_module
    · have hmain := Form.Builds.seq (hnode .prolog .prolog ps _ hb) (.guard (T := (¬ StartsDecl ·)) (tokens_look offset₁ reached₁ _ ▸ hT) hq)
      rwa [List.append_assoc, List.singleton_append] at hmain

end Grammar

/-! ## The source around a prolog -/

namespace Parsed

/-- Every source with the tokens of some trees is read without an error, and as these trees. -/
def ReadAs (ts : List Tree) : Prop :=
  ∀ t : String, Token.ofSource t = tokensOf ts → (ofSource t).hasErrors = false ∧ (ofSource t).tree = .node .root ts

/-- A source without errors is a prolog with trees in front of it and behind it, and another prolog can be put in its place. -/
structure Around (s : String) (front ps behind : List Tree) : Prop where
  tree : (ofSource s).tree = .node .root (front ++ .node .prolog ps :: behind)
  first : ∀ c ∈ constructs front, c.1 ≠ .prolog
  closed : Token.Closed (tokensOf front)
  built : ∃ o o', o.Scanned ∧ Form.prolog.Builds o ps o'
  again : ∀ qs, Spells .prolog qs → tokensOf qs ≠ [] → (Headed ps → Headed qs) → ReadAs (front ++ .node .prolog qs :: behind)

/-- A source of which the parts of a module can be built has no error. -/
theorem ofSource_of_parts {t : String} {vs us : List Tree} {tail rest : List Token} (htail : Token.AllTrivia tail)
    {offset reached offset' reached' : Nat} (ht : Token.ofSource t = tokensOf vs ++ rest)
    (hv : Form.version.Builds (look 0 0 (tokensOf vs ++ rest)) vs (look offset reached rest))
    (hu : Form.unversioned.Builds (look offset reached rest) us (look offset' reached' tail)) :
    (ofSource t).hasErrors = false ∧ (ofSource t).tree = .node .root (vs ++ (us ++ leavesFor tail)) := by
  have hnothing : ∀ t, ([] : List Token).head? = some t → t.isTrivia = false := nofun
  obtain ⟨htrivia, start, hplaced⟩ := look_placed htail hnothing offset' reached'
  rw [List.append_nil] at htrivia hplaced
  have hstart : (Cursor.start t).outlook = look 0 0 (tokensOf vs ++ rest) := by
    rw [← ht]
    rfl
  have hrest := Form.Builds.seq hu (.trivia _)
  rw [htrivia] at hrest
  have hall : Form.whole.Builds (look 0 0 (tokensOf vs ++ rest)) [.node .root (vs ++ (us ++ leavesFor tail))] _ :=
    .leadNode (.seq hv hrest)
  rw [← hstart] at hall
  refine ofSource_of_builds hall ?_
  rw [hplaced]
  rfl

/-- The parts of a source without errors: the version declaration, the rest of the module, and trivia. -/
theorem parts_of_faultless {s : String} (hs : (ofSource s).hasErrors = false) :
    ∃ p p₁ p₂ vs us, p.Scanned ∧ Form.version.Builds p vs p₁ ∧ Form.unversioned.Builds p₁ us p₂ ∧ p₂.ahead = [] ∧
      (ofSource s).tree = .node .root (vs ++ (us ++ leavesFor p₂.tail)) := by
  obtain ⟨o, hb, ho, -⟩ := builds_of_faultless hs
  have hscanned := (start_scanned s).1
  generalize (Cursor.start s).outlook = p at hb hscanned
  generalize (ofSource s).tree = tree at hb ⊢
  cases hb with
  | leadNode hb =>
    cases hb with
    | seq hv hb =>
      cases hb with
      | @seq _ _ _ p₂ _ us _ hu ht =>
        cases ht
        obtain ⟨_ | ⟨l, ls⟩, tail, reached⟩ := p₂
        · exact ⟨_, _, _, _, us, hscanned, hv, hu, rfl, rfl⟩
        · cases ho

/-- A text can be cut behind the version declaration, if there is one. -/
theorem closed_of_version {o o' : Outlook} {vs : List Tree} (h : Form.version.Builds o vs o') (ho : o.Scanned) :
    Token.Closed (tokensOf vs) := by
  cases h with
  | first h => exact closed_of_declared h ho
  | second h =>
    cases h with
    | guard _ h =>
      cases h
      exact .nil

variable {s : String} {p p₁ p₂ p₃ : Outlook} {vs ps : List Tree}

/-- A prolog stands between a module declaration and trivia. -/
theorem around_library {ds : List Tree} (hp : p.Scanned) (hv : Form.version.Builds p vs p₁)
    (hd : (Form.declared .moduleDecl .moduleBody).Builds p₁ ds p₂) (hps : Form.prolog.Builds p₂ ps p₃)
    (htree : (ofSource s).tree = .node .root (vs ++ (ds ++ [.node .prolog ps] ++ leavesFor p₃.tail))) :
    Around s (vs ++ ds) ps (leavesFor p₃.tail) := by
  have hp₁ := hv.scanned hp
  have hp₂ := hd.scanned hp₁
  have htail : Token.AllTrivia p₃.tail := (hps.scanned hp₂).lexical.tail
  refine ⟨by simpa using htree, ?_, ?_, ⟨_, _, hp₂, hps⟩, fun qs hqs _ _ t ht => ?_⟩
  · rw [Tree.constructs_append]
    exact List.forall_mem_append.mpr ⟨hv.avoids hp (by decide), hd.avoids hp₁ (by decide)⟩
  · rw [tokensOf_append]
    exact (closed_of_version hv hp).append (closed_of_declared hd hp₁)
  · rw [List.append_assoc, tokensOf_append, tokensOf_append, tokensOf_cons, Tree.tokens_node, tokensOf_trivia htail] at ht
    obtain ⟨hnone, -⟩ := library_again hd hp₁ hqs p₃.tail 0 0
    obtain ⟨offset₁, reached₁, hv'⟩ := version_again hv hp hnone 0 0
    obtain ⟨-, offset₂, reached₂, hu⟩ := library_again hd hp₁ hqs p₃.tail offset₁ reached₁
    simpa using ofSource_of_parts htail ht hv' hu

/-- A prolog stands between trivia and a query body. -/
theorem around_main {bs : List Tree} (hp : p.Scanned) (hv : Form.version.Builds p vs p₁) (hps : Form.prolog.Builds p₁.placed ps p₂)
    (hb : (Form.guard (¬ StartsDecl ·) .queryBody).Builds p₂ bs p₃) (hend : p₃.ahead = [])
    (htree : (ofSource s).tree = .node .root (vs ++ (leavesFor p₁.trivia ++ [.node .prolog ps] ++ bs ++ leavesFor p₃.tail))) :
    Around s (vs ++ leavesFor p₁.trivia) ps (bs ++ leavesFor p₃.tail) := by
  have hp₁ := hv.scanned hp
  have hp₂ := hps.scanned hp₁.placed
  have htail : Token.AllTrivia p₃.tail := (hb.scanned hp₂).lexical.tail
  have hhead : Headed ps := by
    by_cases hne : tokensOf ps = []
    · simp [Headed, hne]
    · exact (fronted_iff.mp (hps.fronted hp₁.placed p₁.trivia_placed hne)).2
  refine ⟨by simpa using htree, ?_, ?_, ⟨_, _, hp₁.placed, hps⟩, fun qs hqs hne hq t ht => ?_⟩
  · have hnone : ∀ c ∈ constructs vs, c.1 ≠ .prolog := hv.avoids hp (by decide)
    simpa using hnone
  · rw [tokensOf_append, tokensOf_trivia hp₁.lexical.trivia]
    exact (closed_of_version hv hp).append hp₁.lexical.trivia.closed
  · rw [List.append_assoc, tokensOf_append, tokensOf_append, tokensOf_cons, tokensOf_append, Tree.tokens_node, tokensOf_trivia htail,
      tokensOf_trivia hp₁.lexical.trivia] at ht
    obtain ⟨hnone, -⟩ := main_again hb hp₂ hend hp₁.lexical.trivia hqs hne (hq hhead) 0 0
    obtain ⟨offset₁, reached₁, hv'⟩ := version_again hv hp hnone 0 0
    obtain ⟨-, offset₂, reached₂, hu⟩ := main_again hb hp₂ hend hp₁.lexical.trivia hqs hne (hq hhead) offset₁ reached₁
    simpa using ofSource_of_parts htail ht hv' hu

/-- Every source without errors is a prolog with something around it. -/
theorem around_of_faultless (hs : (ofSource s).hasErrors = false) : ∃ front ps behind, Around s front ps behind := by
  obtain ⟨p, p₁, p₂, vs, us, hp, hv, hu, hend, htree⟩ := parts_of_faultless hs
  cases hu with
  | first hu =>
    cases hu with
    | seq hd hu =>
      cases hu with
      | leadNode hps => exact ⟨_, _, _, around_library hp hv hd hps htree⟩
  | second hu =>
    cases hu with
    | guard _ hu =>
      cases hu with
      | seq hm hb =>
        cases hm with
        | node hps => exact ⟨_, _, _, around_main hp hv hps hb hend htree⟩

end Parsed

end QueryStubs
