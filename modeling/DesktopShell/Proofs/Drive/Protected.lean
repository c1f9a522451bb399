import DesktopShell.Proofs.Drive.Commit

namespace DesktopShell.Item

-- Whatever is protected in `x` is found by the same names in `x'`, and is kept there.
structure Steady (x x' : Item) : Prop where
  kept : x.entry.Kept x'.entry
  reached : ∀ {names : List String} {y : Item}, x.descend names = some y →
    y.entry.isProtected = true → ∃ y', x'.descend names = some y' ∧ y.entry.Kept y'.entry

theorem Steady.refl (x : Item) : x.Steady x :=
  ⟨.refl _, fun hy _ => ⟨_, hy, .refl _⟩⟩

theorem Steady.trans {x y z : Item} (h : x.Steady y) (h' : y.Steady z) : x.Steady z := by
  refine ⟨h.kept.trans h'.kept, fun hu hp => ?_⟩
  obtain ⟨u, hu, hk⟩ := h.reached hu hp
  obtain ⟨v, hv, hk'⟩ := h'.reached hu (hk.isProtected_eq.trans hp)
  exact ⟨v, hv, hk.trans hk'⟩

-- A protected item makes all items above it protected ones.
theorem containsProtected_of_descend {x y : Item} {names : List String}
    (h : x.descend names = some y) (hp : y.entry.isProtected = true) :
    x.containsProtected = true :=
  (containsProtected_iff x).mpr ⟨y.entry, entry_mem_entries (mem_walk_of_descend h), hp⟩

-- It is enough to look at the children through which something protected is reached.
theorem Steady.of_child? {x x' : Item} (hk : x.entry.Kept x'.entry)
    (hchild : ∀ name c, x.child? name = some c → c.containsProtected = true →
      ∃ c', x'.child? name = some c' ∧ c.Steady c') : x.Steady x' := by
  refine ⟨hk, fun {names y} hy hp => ?_⟩
  cases names with
  | nil =>
      obtain rfl : x = y := Option.some.inj hy
      exact ⟨x', rfl, hk⟩
  | cons name names =>
      obtain ⟨c, hc, hy⟩ := descend_cons.mp hy
      obtain ⟨c', hc', hsteady⟩ := hchild name c hc (containsProtected_of_descend hy hp)
      obtain ⟨y', hy', hk'⟩ := hsteady.reached hy hp
      exact ⟨y', descend_cons.mpr ⟨c', hc', hy'⟩, hk'⟩

theorem find?_removed {before after : List Item} {t c : Item} {test : Item → Bool}
    (h : (before ++ t :: after).find? test = some c) (hc : c ≠ t) :
    (before ++ after).find? test = some c := by
  rw [List.find?_append] at h ⊢
  cases hb : before.find? test with
  | some b =>
      rw [hb] at h
      exact h
  | none =>
      rw [hb, Option.none_or] at h
      rw [Option.none_or]
      by_cases ht : test t = true
      · rw [List.find?_cons_of_pos ht] at h
        exact absurd (Option.some.inj h).symm hc
      · rwa [List.find?_cons_of_neg ht] at h

theorem Exchange.steady {p p' x x' : Item} {names : List String} (h : Exchange p p' names x x')
    (hp : p.Steady p') : x.Steady x' := by
  induction h with
  | here => exact hp
  | @inside name names e before after x x' first found inner ih =>
      refine .of_child? (.refl _) fun n c hc _ => ?_
      rcases find?_exchange ih.kept.name_eq hc with hc' | ⟨rfl, hc'⟩
      · exact ⟨c, hc', .refl c⟩
      · exact ⟨x', hc', ih⟩

theorem steady_rewrite (now : Moment) (content : String) (x : Item) :
    x.Steady (x.rewrite now content) :=
  .of_child? (kept_rewrite now content x) fun _ c hc _ => ⟨c, hc, .refl c⟩

end DesktopShell.Item

namespace DesktopShell.Change

variable {stamp : Stamp} {change : Change}

-- The folder that a change touches hides nothing protected behind a new child, and loses only a
-- child without any.
theorem Adjusted.steady {e : Entry} {cs cs' : List Item} (h : Adjusted stamp e.path change cs cs') :
    (Item.mk e (some cs)).Steady (.mk (e.touch stamp.now) (some cs')) := by
  refine .of_child? (.touch _ _) fun n c hc hp => ?_
  cases h with
  | create what folder name cs =>
      have hc' : (cs ++ [what.make stamp name (Path.join e.path name)]).find? (·.name = n) = some c := by
        rw [List.find?_append]
        exact Option.or_eq_some_iff.mpr (.inl hc)
      exact ⟨c, hc', .refl c⟩
  | update path content before after t file =>
      have hname : (t.rewrite stamp.now content).name = t.name := rfl
      rcases Item.find?_exchange hname hc with hc' | ⟨rfl, hc'⟩
      · exact ⟨c, hc', .refl c⟩
      · exact ⟨_, hc', Item.steady_rewrite stamp.now content c⟩
  | delete path before after t free =>
      have hne : c ≠ t := by
        intro he
        rw [he, free] at hp
        exact absurd hp (by simp)
      exact ⟨c, Item.find?_removed hc hne, .refl c⟩

-- No change takes away a protected item, or what is left of its entry.
theorem exists_kept {e : Entry} {place : String} {cs cs' : List Item}
    (h : Adjusted stamp place change cs cs') (he : e ∈ cs.flatMap Item.entries)
    (hp : e.isProtected = true) : ∃ e' ∈ cs'.flatMap Item.entries, e.Kept e' := by
  cases h with
  | create what folder name cs =>
      refine ⟨e, ?_, .refl e⟩
      rw [List.flatMap_append]
      exact List.mem_append_left _ he
  | update path content before after t file =>
      rw [List.flatMap_append, List.flatMap_cons, List.mem_append, List.mem_append] at he
      rw [List.flatMap_append, List.flatMap_cons, Item.entries_rewrite]
      rw [Item.entries_eq, List.mem_cons] at he
      rcases he with he | (rfl | he) | he
      · exact ⟨e, by simp [he], .refl e⟩
      · exact ⟨_, by simp, Item.kept_rewrite stamp.now content t⟩
      · exact ⟨e, by simp [he], .refl e⟩
      · exact ⟨e, by simp [he], .refl e⟩
  | delete path before after t free =>
      rw [List.flatMap_append, List.flatMap_cons, List.mem_append, List.mem_append] at he
      rw [List.flatMap_append]
      rcases he with he | he | he
      · exact ⟨e, List.mem_append_left _ he, .refl e⟩
      · have ht : t.containsProtected = true := (Item.containsProtected_iff t).mpr ⟨e, he, hp⟩
        exact absurd (free.symm.trans ht) (by simp)
      · exact ⟨e, List.mem_append_right _ he, .refl e⟩

end DesktopShell.Change

namespace DesktopShell.Drive

variable {d : Drive} {change : Change} {now : Moment} {result : Committed}

theorem steady_commit? (hr : d.root.WellFormed) (h : d.commit? change now = some result) :
    d.root.Steady result.drive.root := by
  obtain ⟨plan, hplan, rfl⟩ := commit?_eq_some_iff.mp h
  obtain ⟨e, cs, cs', names, hadj, hex⟩ := Change.exists_adjusted hr hplan
  exact hex.steady hadj.steady

theorem exists_kept_commit? (hr : d.root.WellFormed) (h : d.commit? change now = some result)
    {e : Entry} (he : e ∈ d.root.entries) (hp : e.isProtected = true) :
    ∃ e' ∈ result.drive.root.entries, e.Kept e' := by
  obtain ⟨plan, hplan, rfl⟩ := commit?_eq_some_iff.mp h
  obtain ⟨f, cs, cs', names, hadj, hex⟩ := Change.exists_adjusted hr hplan
  obtain ⟨front, back, hbefore, hafter⟩ := hex.entries
  rw [hbefore, Item.entries_mk, List.mem_append, List.mem_append, List.mem_cons] at he
  show ∃ e' ∈ plan.root.entries, e.Kept e'
  rw [hafter, Item.entries_mk]
  rcases he with (he | rfl | he) | he
  · exact ⟨e, by simp [he], .refl e⟩
  · exact ⟨e.touch now, by simp, .touch now e⟩
  · obtain ⟨e', he', hk⟩ := Change.exists_kept hadj he hp
    exact ⟨e', List.mem_append_left _ (List.mem_append_right _ (List.mem_cons_of_mem _ he')), hk⟩
  · exact ⟨e, by simp [he], .refl e⟩

end DesktopShell.Drive
