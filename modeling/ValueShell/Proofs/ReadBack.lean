import ValueShell.Proofs.ReadBack.Lowering
import ValueShell.Session

/-!
# Values read back as they are written

The written form of a value is meant to be read by people and by scripts.  For scripts there is a guarantee
(`Value.repr_reads_back`): what is built from nil, booleans, text, exact numbers, lists and maps is written in
a way that a script can put, and putting it gives the same value again, with its items and entries in the same
order.

The guarantee is put together from those of the stages a script goes through: cutting (`Value.cuts_pieces`),
parsing (`Value.reads`), lowering (`Value.lowers`) and evaluation (`Op.exec_command`).
-/

set_option autoImplicit false

namespace ValueShell

open Lexer (Piece texts place)

variable {v : Value}

/-! ## Reading -/

/-- The pieces of a command that puts a written value. -/
def Value.putPieces (v : Value) : List Piece :=
  .bare "put" :: .blank :: v.pieces

theorem Value.tokenize_put (h : v.Plain) :
    tokenize ("put " ++ v.repr).toList = .ok (place 0 v.putPieces) := by
  have htext : ("put " ++ v.repr).toList = texts v.putPieces ++ [] := by
    rw [String.toList_append, Value.toList_repr h, List.append_nil]
    rfl
  have hcuts : Lexer.Cuts v.putPieces [] :=
    .cons (Lexer.cuts_bare (by decide) (List.all_eq_true.1 (by decide)) (.cons (.inl rfl) _))
      (.cons (Value.cuts_blank h []) (Value.cuts_pieces h .nil))
  rw [tokenize, htext, hcuts, Lexer.pieces, List.append_nil]

/-- The command is parsed as what it is. -/
theorem Value.parse_put (h : v.Plain) :
    ∃ tree word p, parse ("put " ++ v.repr).toList = .ok tree ∧ Chunk.Commands tree "put" word ∧
      word.IsJust p ∧ v.SpelledBy p := by
  obtain ⟨token, stop, rest, hplace, hstart⟩ := Value.place_first h 4 [] []
  rw [List.append_nil, List.append_nil] at hplace
  obtain ⟨finish, hfinish⟩ : ∃ n, n = byteLength ("put " ++ v.repr).toList := ⟨_, rfl⟩
  obtain ⟨p, hspelled, hread⟩ := Value.reads h (10 * Lexer.count v.pieces + 13 + 1) 4 [] (some 3) finish
    (by omega)
  rw [List.append_nil, hplace] at hread
  obtain ⟨tree, word, htree, hword, hchunk⟩ : ∃ tree word, Chunk.Commands tree "put" word ∧ word.IsJust p ∧
      Parser.chunk none (10 * Lexer.count v.pieces + 13 + 7)
        ⟨⟨.bareword "put", ⟨0, 3⟩⟩ :: ⟨token, ⟨4, stop⟩⟩ :: rest, none, finish⟩ =
          .ok (tree, ⟨[], some (Lexer.endOf 4 v.pieces), finish⟩) :=
    Parser.chunk_command hstart (by simp) hread ⟨rfl, .inl rfl⟩
  have htokens : place 0 v.putPieces = ⟨.bareword "put", ⟨0, 3⟩⟩ :: ⟨token, ⟨4, stop⟩⟩ :: rest := by
    rw [← hplace]
    rfl
  have hsteps : Parser.steps (place 0 v.putPieces).length = 10 * Lexer.count v.pieces + 13 + 7 := by
    rw [Lexer.length_place, Value.putPieces, Lexer.count_token rfl, Parser.steps]
    change 10 * (Lexer.count v.pieces + 1) + 10 = _
    omega
  refine ⟨tree, word, p, ?_, htree, hword, hspelled⟩
  rw [parse, Value.tokenize_put h]
  dsimp only
  rw [Parser.script, hsteps, htokens, ← hfinish, hchunk]

/-- The command is compiled to one that puts what yields the value. -/
theorem Value.compile_put (h : v.Plain) {source : Source} (hcode : source.code = "put " ++ v.repr)
    {scope : Scope} (hscope : ∀ entry ∈ vocabulary, scope.has entry.1 = true) :
    ∃ site e, e.Yields v ∧ compile source scope = .ok (.command site (Name.function "put") e) := by
  obtain ⟨tree, word, p, hparse, htree, hword, hspelled⟩ := Value.parse_put h
  have henv : Lowering.Enclosing.Understands ⟨source, scope, []⟩ := hscope
  obtain ⟨e, hyields, hprimary⟩ := Value.lowers henv h p [] hspelled
  have hput : (Name.function "put", Value.builtin .put) ∈ vocabulary := by
    simp [vocabulary]
  have hcommand : Name.command "put" (Lowering.has ⟨source, scope, []⟩) [] =
      .ok (.function (Name.function "put"), []) :=
    Lowering.command_eq (by decide) (fun cs ↦ by simp) (hscope _ hput)
  obtain ⟨site, hchunk⟩ := Lowering.chunk_commands htree (by decide) hcommand
    (Lowering.compound_isJust hword hprimary)
  refine ⟨site, e, hyields, ?_⟩
  rw [compile, hcode, hparse]
  dsimp only
  rw [Chunk.lower, hchunk]

/-! ## Running -/

/-- Run by itself in a world, the program comes to putting a value on a sink in another world, and does nothing more
when the sink takes it: it comes to its end, with notes on the way. -/
def Prog.Puts (p : Prog) (w : World) (sink : ValueSink) (v : Value) (w' : World) : Prop :=
  ∃ n notes next, Prog.Goes n p w (.act (.put sink v) next) w' ∧
    ∀ w₁, Prog.Goes notes (next (.ok ())) w₁ (.done (.ok ())) w₁

/-- The sink is ready for the value and does not refuse it. -/
def World.Takes (w : World) (sink : ValueSink) (v : Value) : Prop :=
  w.putReady sink = true ∧ (w.put sink v).1 = .ok ()

theorem Prog.Puts.run {p : Prog} {w w' : World} {sink : ValueSink} (h : p.Puts w sink v w')
    (htakes : w'.Takes sink v) :
    ∃ bound, ∀ rounds > bound, p.run rounds w = (.ended (.ok ()), (w'.put sink v).2) := by
  obtain ⟨n, notes, next, hgoes, hnext⟩ := h
  have hlast : Prog.Goes (notes + 1) (.act (.put sink v) next) w' (.done (.ok ())) (w'.put sink v).2 := by
    refine .act htakes.1 ?_
    change Prog.Goes notes (next (w'.put sink v).1) (w'.put sink v).2 _ _
    rw [htakes.2]
    exact hnext _
  exact ⟨n + (notes + 1), fun rounds hrounds ↦ (hgoes.trans hlast).run hrounds⟩

/-- **Written values read back.**  The written form of a plain value is code that puts the value: wherever the
vocabulary of written values is visible, `put` with the written form behind it compiles, and run by itself in
any frame that understands it, it comes to putting this one value on the output.  It changes nothing else,
but for the collections it needed for numbers, which are empty again.  If the output takes the value, the run
has ended well. -/
theorem Value.repr_reads_back (h : v.Plain) {source : Source} (hcode : source.code = "put " ++ v.repr)
    {scope : Scope} (hscope : ∀ entry ∈ vocabulary, scope.has entry.1 = true) :
    ∃ op, compile source scope = .ok op ∧
      ∀ (n : Nat) (fm : Frame) (w : World), fm.Understands w →
        ∃ k, ((engine (n + 2)).runChunk op fm).program.Puts w fm.wiring.output.values v (w.spare k) ∧
          ((w.spare k).Takes fm.wiring.output.values v →
            ∃ bound, ∀ rounds > bound, ((engine (n + 2)).runChunk op fm).program.run rounds w =
              (.ended (.ok ()), ((w.spare k).put fm.wiring.output.values v).2)) := by
  obtain ⟨site, e, hyields, hcompile⟩ := Value.compile_put h hcode hscope
  refine ⟨_, hcompile, fun n fm w hfm ↦ ?_⟩
  have hput : (Name.function "put", Value.builtin .put) ∈ vocabulary := by
    simp [vocabulary]
  obtain ⟨k, m, notes, hdelivers⟩ := Op.exec_command site hput hyields (Builtin.puts_put v) n hfm
  have hputs : ((engine (n + 2)).runChunk (.command site (Name.function "put") e) fm).program.Puts w
      fm.wiring.output.values v (w.spare k) := by
    obtain ⟨next, hgoes, hnext⟩ := hdelivers _
    exact ⟨m, notes, next, hgoes, hnext⟩
  exact ⟨k, hputs, hputs.run⟩

/-- A value with something of everything that reads back. -/
def sample : Value :=
  .list [.nil, .bool true, .str "it's", .num (.int (-5)), .num (.rat ⟨1, 2, by decide, by decide⟩),
    .map [(.str "a b", .list []), (.num (.int 1), .map [])]]

/-- A script that puts the sample. -/
def sampleScript : Source :=
  ⟨0, "script", "put [$nil $true 'it''s' (num -5) (num 1/2) [&'a b'=[] &(num 1)=[&]]]", none⟩

/-- A fresh world with a buffer. -/
def bufferWorld : World :=
  (World.fresh .default).record.2

/-- A frame at the top of a fresh world that puts into the buffer. -/
def bufferFrame : Frame :=
  .top .default (World.fresh .default).global ⟨.empty, ⟨.buffer ⟨0⟩, .buffer ⟨0⟩⟩, .discard⟩ default

/-- In a fresh world the sample is put into the buffer, once. -/
theorem Value.repr_reads_back_sample : ∃ (op : Op) (k bound : Nat),
    compile sampleScript (bufferWorld.scope bufferWorld.global) = .ok op ∧
    ∀ rounds > bound, ((engine 2).runChunk op bufferFrame).program.run rounds bufferWorld =
      (.ended (.ok ()), ((bufferWorld.spare k).put (.buffer ⟨0⟩) sample).2) := by
  have hkeys : (Value.num (.int 1)).keyEq (.str "a b") = false := rfl
  have hplain : sample.Plain := by
    refine ⟨trivial, trivial, trivial, rfl, ⟨rfl, rfl, by decide⟩, ⟨⟨trivial, trivial, rfl, ?_, trivial⟩, ?_⟩,
      trivial⟩
    · exact ⟨trivial, .nil⟩
    · exact .cons (List.forall_mem_singleton.2 hkeys) (.cons nofun .nil)
  have hcode : sampleScript.code = "put " ++ sample.repr := by
    decide +kernel
  have hscope : ∀ entry ∈ vocabulary, (bufferWorld.scope bufferWorld.global).has entry.1 = true := by
    decide +kernel
  obtain ⟨op, hop, hrun⟩ := Value.repr_reads_back hplain hcode hscope
  have hfm : bufferFrame.Understands bufferWorld := by
    refine ⟨fun entry hentry ↦ ?_, rfl⟩
    simp only [vocabulary, List.mem_cons, List.not_mem_nil, or_false] at hentry
    rcases hentry with rfl | rfl | rfl | rfl | rfl
    · exact ⟨⟨2⟩, by decide +kernel, by with_unfolding_all rfl⟩
    · exact ⟨⟨0⟩, by decide +kernel, by with_unfolding_all rfl⟩
    · exact ⟨⟨1⟩, by decide +kernel, by with_unfolding_all rfl⟩
    · exact ⟨⟨11⟩, by decide +kernel, by with_unfolding_all rfl⟩
    · exact ⟨⟨3⟩, by decide +kernel, by with_unfolding_all rfl⟩
  obtain ⟨k, -, htaken⟩ := hrun 0 _ _ hfm
  obtain ⟨bound, hbound⟩ := htaken ⟨rfl, rfl⟩
  exact ⟨op, k, bound, hop, hbound⟩

end ValueShell
