import DesktopShell.Proofs.Tree.Exchange

namespace DesktopShell

namespace Item

-- No folder has two children of one name.
def NamesDistinct (x : Item) : Prop :=
  ∀ y ∈ x.walk, (y.children.map name).Nodup

theorem namesDistinct_iff {x : Item} :
    x.NamesDistinct ↔ (x.children.map name).Nodup ∧ ∀ c ∈ x.children, c.NamesDistinct := by
  constructor
  · intro h
    exact ⟨h x (self_mem_walk x), fun c hc y hy => h y (mem_walk.mpr (.inr ⟨c, hc, hy⟩))⟩
  · rintro ⟨hself, hbelow⟩ y hy
    rcases mem_walk.mp hy with rfl | ⟨c, hc, hy⟩
    · exact hself
    · exact hbelow c hc y hy

theorem namesDistinct_mk {e : Entry} {cs : List Item} :
    (mk e (some cs)).NamesDistinct ↔ (cs.map name).Nodup ∧ ∀ c ∈ cs, c.NamesDistinct :=
  namesDistinct_iff

theorem namesDistinct_leaf {x : Item} (h : x.children = []) : x.NamesDistinct := by
  rw [namesDistinct_iff, h]
  exact ⟨List.nodup_nil, fun c hc => absurd hc List.not_mem_nil⟩

theorem child?_eq_none_iff {x : Item} {n : String} :
    x.child? n = none ↔ n ∉ x.children.map name := by
  simp [child?, List.find?_eq_none]

theorem NamesDistinct.of_mem_walk {x y : Item} (h : x.NamesDistinct) (hy : y ∈ x.walk) :
    y.NamesDistinct :=
  fun z hz => h z (mem_walk_trans hz hy)

-- All depends on what is put in the place of another item.
theorem Exchange.namesDistinct {p p' x x' : Item} {names : List String}
    (h : Exchange p p' names x x') (hname : p'.name = p.name) (hx : x.NamesDistinct) :
    x'.NamesDistinct ↔ p'.NamesDistinct := by
  induction h with
  | here => exact .rfl
  | @inside name names e before after c c' first found inner ih =>
      obtain ⟨hnames, hbelow⟩ := namesDistinct_mk.mp hx
      have hc : c.NamesDistinct := hbelow c (by simp)
      have hsame : c'.name = c.name := inner.entry_eq (·.name) hname
      rw [← ih hc, namesDistinct_mk]
      constructor
      · rintro ⟨-, hbelow'⟩
        exact hbelow' c' (by simp)
      · intro hc'
        refine ⟨?_, fun y hy => ?_⟩
        · rwa [List.map_append, List.map_cons, hsame, ← List.map_cons, ← List.map_append]
        · rcases List.mem_append.mp hy with hy | hy
          · exact hbelow y (by simp [hy])
          · rcases List.mem_cons.mp hy with rfl | hy
            · exact hc'
            · exact hbelow y (by simp [hy])

-- A folder keeps its names apart when it loses children.
theorem NamesDistinct.sublist {e e' : Entry} {cs cs' : List Item} (h : (mk e (some cs)).NamesDistinct)
    (hsub : cs'.Sublist cs) : (mk e' (some cs')).NamesDistinct := by
  obtain ⟨hnames, hbelow⟩ := namesDistinct_mk.mp h
  exact namesDistinct_mk.mpr ⟨hnames.sublist (hsub.map name), fun c hc => hbelow c (hsub.subset hc)⟩

-- One more child is well only under a new name.
theorem NamesDistinct.append_iff {e e' : Entry} {cs : List Item} {new : Item}
    (h : (mk e (some cs)).NamesDistinct) (hnew : new.children = []) :
    (mk e' (some (cs ++ [new]))).NamesDistinct ↔ (mk e (some cs)).child? new.name = none := by
  obtain ⟨hnames, hbelow⟩ := namesDistinct_mk.mp h
  rw [namesDistinct_mk, child?_eq_none_iff, List.map_append, List.map_singleton]
  constructor
  · rintro ⟨hnodup, -⟩ hmem
    exact (List.nodup_append.mp hnodup).2.2 _ hmem _ (List.mem_singleton.mpr rfl) rfl
  · intro hfree
    refine ⟨hnames.append (List.nodup_singleton _) ?_, fun c hc => ?_⟩
    · rw [List.disjoint_singleton]
      exact hfree
    · rcases List.mem_append.mp hc with hc | hc
      · exact hbelow c hc
      · rw [List.mem_singleton.mp hc]
        exact namesDistinct_leaf hnew

end Item

end DesktopShell
