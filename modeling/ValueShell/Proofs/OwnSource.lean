import ValueShell.Proofs.Sources.Execution
import ValueShell.Proofs.Warnings

/-!
# Code runs in its own source

Whoever calls a function, and however its code gets to be run, the forms in it are run in a frame for the source they
stand in (`Moment.Course.own_source`).  So what a file asks for by a relative path is looked for from the directory
of that file and not from that of whoever calls it.

What an embedder may do here is to make requests in forms of their frame's source and to change the world in any way
that puts no closure into the store with a source that is not that of its code.
-/

set_option autoImplicit false

namespace ValueShell

/-- A part of a task that goes on runs code in its own source if the task does. -/
theorem Task.Turns.sourced {p p' : Prog} {s : Strand} {t t' : Task} {tr : Trace} (h : Task.Turns p s p' t tr t')
    (ht : t.Sourced tr) : p.Sourced s := by
  induction h with
  | here => exact ht
  | stage hlength _ ih =>
    obtain ⟨-, htask, -⟩ := (Task.allSourced_append hlength).1 ht.1
    exact ih htask

namespace Moment

variable {m m' : Moment} {e : Event} {tr tr' : Trace}

/-- An act is that of a part of the task, which goes on with what the world replies. -/
theorem Records.turns_act {a : Act} {r : a.Reply} (h : m.Records tr e m' tr') (he : e = .act a r) :
    r = (a.perform m.world).1 ∧
      ∃ (s : Strand) (next : a.Reply → Prog), Task.Turns (.act a next) s (next r) m.task tr m'.task := by
  induction h with
  | @act a next w s _ =>
    obtain ⟨rfl, hreply⟩ := Event.act.inj he
    obtain rfl := eq_of_heq hreply
    exact ⟨rfl, s, next, .here⟩
  | stage hlength _ ih =>
    obtain ⟨hr, s, next, hturns⟩ := ih he
    exact ⟨hr, s, next, .stage hlength hturns⟩
  | note | fork | join | giveUp | wait => cases he

/-- A note is that of a part of the task. -/
theorem Records.turns_note {n : Note} (h : m.Records tr e m' tr') (he : e = .note n) :
    ∃ (s : Strand) (p : Prog), Task.Turns (.note n p) s p m.task tr m'.task := by
  induction h with
  | @note n p w s =>
    cases he
    exact ⟨s, p, .here⟩
  | stage hlength _ ih =>
    obtain ⟨s, p, hturns⟩ := ih he
    exact ⟨s, p, .stage hlength hturns⟩
  | act | fork | join | giveUp | wait => cases he

/-! ## The course of an evaluator -/

/-- What an evaluator may come to, with the log of what it is doing: it begins with closures that are code of their
sources, meets requests that are made in forms of their frame's source, and takes steps; and whoever embeds it may do
anything to the world but add closures that are code of another source than theirs. -/
inductive Course : Moment → Trace → Prop
  | begin {w : World} (h : w.OwnCode) : Course ⟨.running (.done (.ok ())), w⟩ (.strand (.start none))
  | ask {t : Task} {w : World} {tr : Trace} (h : Course ⟨t, w⟩ tr) (r : Request) (n : Nat)
      (hr : r.frame.Owns r.frame.site) : Course ⟨.running (r.program n), w⟩ (.strand (.start r.frame.site))
  | step {m m' : Moment} {e : Event} {tr tr' : Trace} (h : Course m tr) (hs : m.Records tr e m' tr') : Course m' tr'
  | touch {t : Task} {w w' : World} {tr : Trace} (h : Course ⟨t, w⟩ tr)
      (hcode : ∀ id c, w'.store.closure? id = some c → w.store.closure? id = some c ∨ c.body.IsOf c.source) :
      Course ⟨t, w'⟩ tr

namespace Course

theorem sourced (h : Course m tr) : m.task.Sourced tr ∧ m.world.OwnCode := by
  induction h with
  | begin hw => exact ⟨trivial, hw⟩
  | ask _ r n hr ih => exact ⟨r.sourced hr n, ih.2⟩
  | step _ hs ih => exact hs.sourced ih.1 ih.2
  | touch _ hcode ih => exact ⟨ih.1, fun id c hc ↦ (hcode id c hc).elim (ih.2 id c) fun hown ↦ hown⟩

theorem traced (h : Course m tr) : m.task.Traced tr := by
  induction h with
  | begin => exact ⟨rfl, nofun⟩
  | ask _ r n _ _ => exact r.keepsLog n
  | step _ hs ih => exact hs.traced ih
  | touch _ _ ih => exact ih

/-- **Code runs in its own source.**  What is compiled from a source is code of it, in all its forms and lambdas; and
in the course of an evaluator

* every closure is code of its source;
* in every step in which a form begins, it is run in a frame for the source it stands in;
* in every step that looks for a module while a form is being run, this is looked for from the directory of the source
  in which that form stands, whatever the forms around it, and with what is found there the program goes on.

Chunks and bodies have no sites of their own.  They are run in the frame of the forms in them. -/
theorem own_source (h : Course m tr) :
    (∀ (source : Source) scope op, compile source scope = .ok op → op.IsOf source) ∧
    (∀ id c, m.world.store.closure? id = some c → c.body.IsOf c.source) ∧
    (∀ site source loading m', m.Step (.note (.starts (some site) source loading)) m' → source = site.source) ∧
    ∀ spec base found m', m.Step (.act (.resolveModule spec base) found) m' →
      ∃ (s : Strand) (next : Except Reason FilePath → Prog),
        Task.Turns (.act (.resolveModule spec base) next) s (next found) m.task tr m'.task ∧
        ∀ site, s.site = some site →
          base = site.source.path.bind parentPath ∧
          found = Modules.resolve m.world.files spec (site.source.path.bind parentPath) m.world.config.libDirs
            Modules.extension := by
  obtain ⟨htask, hworld⟩ := h.sourced
  refine ⟨fun _ _ _ hop ↦ compile_isOf hop, hworld, fun site source loading m' hstep ↦ ?_,
    fun spec base found m' hstep ↦ ?_⟩
  · obtain ⟨tr', hrecords⟩ := hstep.records h.traced
    obtain ⟨s, p, hturns⟩ := hrecords.turns_note rfl
    obtain ⟨hsource, -⟩ := hturns.sourced htask
    exact hsource.symm
  · obtain ⟨tr', hrecords⟩ := hstep.records h.traced
    obtain ⟨hfound, s, next, hturns⟩ := hrecords.turns_act rfl
    obtain ⟨hbase, -⟩ := hturns.sourced htask
    refine ⟨s, next, hturns, fun site hsite ↦ ?_⟩
    rw [← hbase site hsite]
    exact ⟨rfl, hfound⟩

end Course

end Moment

/-! ## A function that is called from elsewhere -/

/-- What a program asks for when it looks for a module next, and from where. -/
def Prog.sought? : Prog → Option (String × Option String)
  | .act (.resolveModule spec base) _ => some (spec, base)
  | _ => none

theorem Prog.eq_of_sought? {p : Prog} {spec : String} {base : Option String} (h : p.sought? = some (spec, base)) :
    ∃ next, p = .act (.resolveModule spec base) next := by
  unfold sought? at h
  split at h <;> cases h
  exact ⟨_, rfl⟩

namespace Moment.Course

/-- A script, a module in another directory whose function asks for what lies beside it, and what lies there. -/
def twoDirectories : World :=
  let script := Utf8.encode "use ../lib/m; m:f"
  let function := Utf8.encode "fn f \x7b use ./x \x7d"
  { World.fresh .default with
    files := (((FileTree.fresh ["W"]).install "app/main.qb" (.file script)).install "lib/m.qb" (.file function)).install
      "lib/x.qb" (.file []) }

/-- The script calls the function, in which `./x` is what lies beside the module and not beside the script. -/
theorem own_source_function :
    ∃ (m m' : Moment) (s : Strand) (site : CallSite) (found : Except Reason FilePath),
      Course m (.strand s) ∧ m.Step (.act (.resolveModule "./x" (some "/W/lib")) found) m' ∧
      s.site = some site ∧ s.opened.map (·.1.source.path) = [some "/W/lib/m.qb", some "app/main.qb"] ∧
      some "/W/lib" = site.source.path.bind parentPath ∧ found.toOption = some ["W", "lib", "x.qb"] := by
  let r : Request := .file .default twoDirectories.global "app/main.qb"
    ⟨⟨none, none⟩, ⟨.discard, .discard⟩, ⟨.discard, .discard⟩⟩
  have hbegin : Course ⟨.running (.done (.ok ())), twoDirectories⟩ (.strand (.start none)) :=
    .begin fun _ _ hc ↦ by cases hc
  have hcourse := Prog.record_induction (P := fun _ ↦ Course) (fun h hs ↦ h.step hs) 35 (r.program 12)
    twoDirectories (.start none) [] (hbegin.ask r 12 nofun)
  generalize hx : (r.program 12).record 35 twoDirectories (.start none) = x at hcourse
  have hthere : x.2.1.sought? = some ("./x", some "/W/lib") ∧ x.2.2.2.site.isSome = true ∧
      x.2.2.2.opened.map (·.1.source.path) = [some "/W/lib/m.qb", some "app/main.qb"] ∧
      (Modules.resolve x.2.2.1.files "./x" (some "/W/lib") x.2.2.1.config.libDirs Modules.extension).toOption =
        some ["W", "lib", "x.qb"] := by
    rw [← hx]
    decide +kernel
  obtain ⟨hsought, hsite, hopened, hplace⟩ := hthere
  obtain ⟨next, hp⟩ := Prog.eq_of_sought? hsought
  obtain ⟨site, hsite⟩ := Option.isSome_iff_exists.1 hsite
  rw [hp] at hcourse
  have hstep := @Step.act (.resolveModule "./x" (some "/W/lib")) next x.2.2.1 rfl
  obtain ⟨-, -, -, hlooks⟩ := own_source hcourse
  obtain ⟨s, _, hturns, hbase⟩ := hlooks _ _ _ _ hstep
  cases hturns
  obtain ⟨hbase, hfound⟩ := hbase site hsite
  refine ⟨_, _, _, site, _, hcourse, hstep, hsite, hopened, hbase, ?_⟩
  rw [hfound, ← hbase]
  exact hplace

end Moment.Course

end ValueShell
