import ValueShell.Proofs.Accounting.Lowered
import ValueShell.Proofs.CallSites.Lowered
import ValueShell.Proofs.CallSites.Parsed
import ValueShell.Proofs.Lexing

/-!
# Call sites

A call site is known by its span, so two forms with one span would be one place to deprecations and stack traces.
`parse_sites` says that this does not happen.  The nodes of a tree lie well on the tokens of the text, so that the
spans that become sites all differ; and lowering makes each of them once.

What a site shows is the text from where its first token starts to where its last one ends, which is there because
tokens start and stop between characters.
-/

set_option autoImplicit false

namespace ValueShell

/-! ## What a span on tokens covers -/

namespace Source

variable {s : Source} {a b : Span} {text text' rest rest' : List Char}

/-- From where one span starts to where another one stops, there is a text. -/
theorem Covers.through (h : s.Covers a text rest) (h' : s.Covers b text' rest') (hlt : a.start < b.stop) :
    ∃ inside, inside ≠ [] ∧ s.Covers ⟨a.start, b.stop⟩ inside rest' := by
  obtain ⟨before, hcode, hstart, -⟩ := h
  obtain ⟨before', hcode', -, hstop⟩ := h'
  have hboth : before ++ (text ++ rest) = before' ++ text' ++ rest' := by
    rw [← List.append_assoc, ← hcode, hcode']
  rw [hstart, hstop, ← byteLength_append] at hlt
  rcases List.append_eq_append_iff.1 hboth with ⟨inside, hinside, -⟩ | ⟨inside, hinside, -⟩
  · refine ⟨inside, ?_, before, by rw [hcode', hinside], hstart, ?_⟩
    · rintro rfl
      rw [hinside, List.append_nil] at hlt
      exact Nat.lt_irrefl _ hlt
    · rw [hstop, ← byteLength_append, hinside, byteLength_append]
  · rw [hinside, byteLength_append before' text', byteLength_append, byteLength_append] at hlt
    omega

end Source

/-- The tokens of a text come in order, and each of them covers a part of it. -/
theorem tokenize_inOrder {source : Source} {tokens : List Spanned} (h : tokenize source.code.toList = .ok tokens) :
    InOrder tokens ∧ ∀ t ∈ tokens, ∃ text rest, source.Covers t.span text rest := by
  unfold tokenize at h
  split at h
  next ps hps =>
    obtain rfl := Except.ok.inj h
    have hpieces := Lexer.pieces_whole source.code.toList (by rw [hps])
    rw [hps] at hpieces
    have hall : source.code.toList = [] ++ Lexer.texts ps := hpieces.1.symm
    obtain ⟨texts, skipped, hcovers, -⟩ := Lexer.exists_spells hpieces.2 hall
    refine ⟨⟨fun t ht ↦ ?_, Lexer.pairwise_place⟩, fun t ht ↦ ?_⟩
    · obtain ⟨text, hne, rest, hcover⟩ := exists_of_forall₂ hcovers t ht
      have hpos := byteLength_pos hne
      have hstop := hcover.stop_eq
      omega
    · obtain ⟨text, -, rest, hcover⟩ := exists_of_forall₂ hcovers t ht
      exact ⟨text, rest, hcover⟩
  next => cases h

/-- A span on tokens covers a text that is not empty. -/
theorem Span.OnTokens.covers {source : Source} {tokens : List Spanned} {span : Span} (h : span.OnTokens tokens)
    (htokens : ∀ t ∈ tokens, ∃ text rest, source.Covers t.span text rest) :
    ∃ text rest, text ≠ [] ∧ source.Covers span text rest := by
  obtain ⟨t, ht, hstart⟩ := h.start
  obtain ⟨u, hu, hstop⟩ := h.stop
  obtain ⟨text, rest, hcover⟩ := htokens t ht
  obtain ⟨text', rest', hcover'⟩ := htokens u hu
  have hlt := h.lt
  rw [← hstart, ← hstop] at hlt
  obtain ⟨inside, hne, hinside⟩ := hcover.through hcover' hlt
  rw [hstart, hstop] at hinside
  exact ⟨inside, rest', hne, hinside⟩

/-! ## Sites -/

namespace Region

/-- In regions that fit on tokens, the sites lie on tokens and differ. -/
theorem Fits.sites {tokens : List Spanned} {rs : List Region} (h : Fits tokens rs) :
    (∀ s ∈ sitesOf rs, s.OnTokens tokens) ∧ (sitesOf rs).Nodup := by
  have hsited : ∀ r ∈ rs, r.WellSited tokens := fun r hr ↦ (h.laid r hr).wellSited
  refine ⟨fun s hs ↦ ?_, nodup_sitesOf hsited (h.before.imp .inl)⟩
  obtain ⟨r, hr, hs⟩ := mem_sitesOf.1 hs
  exact (hsited r hr).onTokens s hs

end Region

/-- What is compiled has been parsed. -/
theorem compile_tree {source : Source} {scope : Scope} {op : Op} {tree : Chunk}
    (htree : parse source.code.toList = .ok tree) (h : compile source scope = .ok op) :
    tree.lower source scope = .ok op := by
  rw [compile, htree] at h
  dsimp only at h
  split at h
  · cases h
  · next hop =>
    cases h
    exact hop

/-- **Spans nest, and every form has a call site of its own.**  In the tree of a text, each node starts and stops with a
token and is not empty, lies inside the node around it, and comes in order with the nodes beside it.  The operation that
a text is compiled to has one site for each form, each pipeline of two or more forms and each word of a `del`.  These
sites differ, and each shows what it covers of the text, which is not empty. -/
theorem parse_sites {source : Source} {tree : Chunk} (htree : parse source.code.toList = .ok tree) :
    (∃ tokens, tokenize source.code.toList = .ok tokens ∧ Region.Fits tokens tree.regions) ∧
    ∀ scope op, compile source scope = .ok op →
      (op.outline.sites.map (·.span)).Perm (Region.sitesOf tree.regions) ∧
      op.outline.sites.Pairwise (fun a b ↦ a.same b = false) ∧
      ∀ site ∈ op.outline.sites,
        ∃ text rest, text ≠ [] ∧ source.Covers site.span text rest ∧ site.text = String.ofList text := by
  obtain ⟨tokens, htokens, hscript⟩ : ∃ tokens, tokenize source.code.toList = .ok tokens ∧
      Parser.script tokens (byteLength source.code.toList) = .ok tree := by
    rw [parse] at htree
    split at htree
    · cases htree
    · next tokens htokens => exact ⟨tokens, htokens, htree⟩
  obtain ⟨horder, hcovers⟩ := tokenize_inOrder htokens
  have hfits := Parser.script_fits horder hscript
  obtain ⟨honTokens, hnodup⟩ := hfits.sites
  refine ⟨⟨tokens, htokens, hfits⟩, fun scope op hop ↦ ?_⟩
  have hperm := Chunk.sites_lower (compile_tree htree hop)
  refine ⟨hperm, ?_, fun site hsite ↦ ?_⟩
  · have hspans : (op.outline.sites.map (·.span)).Nodup := hperm.nodup_iff.2 hnodup
    refine (List.pairwise_map.1 hspans).imp fun hne ↦ ?_
    rw [CallSite.same, beq_eq_false_iff_ne.2 hne, Bool.and_false]
  · have hspan : site.span ∈ Region.sitesOf tree.regions := hperm.mem_iff.1 (List.mem_map.2 ⟨site, hsite, rfl⟩)
    obtain ⟨text, rest, hne, hcover⟩ := (honTokens _ hspan).covers hcovers
    refine ⟨text, rest, hne, hcover, ?_⟩
    rw [CallSite.text, compile_sites hop site hsite, hcover.slice]
    rfl

/-- A pipeline in a capture in a form, an index of `del`, and a lambda with a default. -/
theorem parse_sites_nested :
    let source : Source :=
      ⟨0, "", "var a = [b]; del a[(put 0)]; put (nop | put (put b))[0] {|x &y=(nop)| put $x }", none⟩
    ∃ op, compile source ⟨[], [], ["put~", "nop~"]⟩ = .ok op ∧
      op.outline.sites.map (·.text) = ["var a = [b]", "a[(put 0)]", "put 0",
        "put (nop | put (put b))[0] {|x &y=(nop)| put $x }", "nop | put (put b)", "nop", "put (put b)", "put b", "nop",
        "put $x"] ∧
      op.outline.sites.Pairwise fun a b ↦ a.same b = false := by
  intro source
  obtain ⟨tree, htree⟩ := Option.isSome_iff_exists.1
    (show (parse source.code.toList).toOption.isSome = true by decide +kernel)
  have hcompile : (compile source ⟨[], [], ["put~", "nop~"]⟩).toOption.map (·.outline.sites.map (·.text)) =
      some ["var a = [b]", "a[(put 0)]", "put 0", "put (nop | put (put b))[0] {|x &y=(nop)| put $x }",
        "nop | put (put b)", "nop", "put (put b)", "put b", "nop", "put $x"] := by
    decide +kernel
  obtain ⟨op, hop, htexts⟩ := Option.map_eq_some_iff.1 hcompile
  have hop := eq_ok_of_toOption hop
  exact ⟨op, hop, htexts, ((parse_sites (eq_ok_of_toOption htree)).2 _ op hop).2.1⟩

end ValueShell
