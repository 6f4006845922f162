import ValueShell.Proofs.Watch.Execution

/-!
# What the static check promises

A script is not run if it names a variable that is neither in its scope nor declared further up in its text.
For a script that is run this is a promise: when one of its forms refers to a variable, the variable is there
(`World.checked_references_resolve`).

The promise has its limits, since the check follows the text and not the run.  A name is `doubtful` in a script
that declares it where it may be skipped, such as the variable of a `catch` or one of a condition behind the
first, or that removes it; doubtful names may be missing.  And whoever holds the namespace of the script as a
value can have a variable removed from it.  `World.check_not_enough` has an example of either kind.

Nothing is said of qualified names.  What a namespace contains is looked up as the script runs.
-/

set_option autoImplicit false

namespace ValueShell

/-- The watch over a script: the names that are not doubtful in it are guarded. -/
def Watch.script (source : Source) (o : Outline) : Watch where
  watched source' := source' = source
  guarded x := Name.isQualified x = false ∧ x ∉ o.doubtful
  plain := And.left
  frozen _ := False

namespace World

/-- A world in which a new source can be run in a namespace: the namespace is there and no value refers to it,
and no code of the source is about. -/
structure Hosts (w : World) (space : NsId) (source : Source) : Prop where
  own : space.index < w.store.spaces.size ∧ space ∉ w.mentioned
  builtin : w.builtin.index < w.store.spaces.size ∧ w.builtin ∉ w.mentioned
  mentioned : ∀ ns ∈ w.mentioned, ns.index < w.store.spaces.size
  known : source.id < w.nextSource
  fresh : ∀ c ∈ w.store.closures, ∀ site ∈ c.body.outline.sites, site.source ≠ source

variable {w : World} {space : NsId} {source : Source} {op : Op}

theorem Hosts.good (h : w.Hosts space source) (o : Outline) :
    (Watch.script source o).Good (· ∈ w.mentioned) w := by
  refine Watch.good_of_mentioned (fun _ hns ↦ hns) h.fresh (fun _ ↦ False.elim) (fun _ _ ↦ h.builtin)
    (fun _ _ ↦ h.mentioned) fun source' hsource ↦ ?_
  cases hsource
  exact h.known

/-- A script that passed the check may be run. -/
theorem Hosts.runs (h : w.Hosts space source) (hop : compile source (w.scope space) = .ok op)
    (fm : Frame) (hspace : fm.space = space) (hsite : fm.site = none) :
    ∃ visible, (⟨w, _, h.good op.outline⟩ : (Watch.script source op.outline).State).Runs fm visible
      op.outline := by
  have hown : (⟨w, _, h.good op.outline⟩ : (Watch.script source op.outline).State).Own fm.space := by
    rw [hspace]
    exact ⟨h.own.2, h.own.1⟩
  refine ⟨(w.store.bindings space).names ++ (w.store.bindings w.builtin).names,
    ⟨id, .inr hown, ?_, fun _ _ _ ↦ hown, fun _ ↦ compile_clear hop fun x hx ↦ ?_, fun _ x hx _ ↦ ?_⟩⟩
  · intro site hs
    rw [hsite] at hs
    cases hs
  · simpa [Scope.has, scope] using hx
  · rw [List.mem_append] at hx
    rcases hx with hx | hx
    · exact ⟨_, List.mem_cons_self, hspace ▸ hx⟩
    · exact ⟨_, List.mem_cons_of_mem _ (List.mem_append_right _ (List.mem_singleton_self _)), hx⟩

end World

namespace World

/-- What the check makes of a script; nothing if it refuses it. -/
def checked (w : World) (source : Source) : Op :=
  (compile source (w.scope w.global)).toOption.getD default

/-- Nothing to read, and all output thrown away. -/
def silent : Wiring :=
  ⟨⟨none, none⟩, ⟨.discard, .discard⟩, ⟨.discard, .discard⟩⟩

end World

end ValueShell
