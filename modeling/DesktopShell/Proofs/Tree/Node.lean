import DesktopShell.Proofs.Tree.Exchange

namespace DesktopShell

-- An item as the numbers tell it: what it is, and the numbers of what it contains, in order. All
-- nodes together say where each item is and how it stands among its siblings.
structure Node where
  entry : Entry
  children : List ItemId

namespace Item

def childIds (x : Item) : List ItemId :=
  x.children.map id

def node (x : Item) : Node :=
  ⟨x.entry, x.childIds⟩

def nodes (x : Item) : List Node :=
  x.walk.map node

theorem nodes_eq (x : Item) : x.nodes = x.node :: x.children.flatMap nodes := by
  rw [nodes, walk_eq, List.map_cons, List.map_flatMap]
  rfl

theorem nodes_mk (e : Entry) (cs : List Item) :
    (mk e (some cs)).nodes = ⟨e, cs.map id⟩ :: cs.flatMap nodes :=
  nodes_eq _

-- Outside of what is exchanged every node stays, as long as the number there stays.
theorem Exchange.nodes {p p' x x' : Item} {names : List String} (h : Exchange p p' names x x')
    (hid : p'.id = p.id) :
    ∃ before after, x.nodes = before ++ p.nodes ++ after ∧
      x'.nodes = before ++ p'.nodes ++ after := by
  induction h with
  | here => exact ⟨[], [], by simp, by simp⟩
  | @inside name names e before after x x' first found inner ih =>
      obtain ⟨front, back, hx, hx'⟩ := ih
      have hsame : x'.id = x.id := inner.entry_eq (·.id) hid
      refine ⟨⟨e, (before ++ x :: after).map id⟩ :: before.flatMap Item.nodes ++ front,
        back ++ after.flatMap Item.nodes, ?_, ?_⟩
      · simp [nodes_mk, hx]
      · simp [nodes_mk, hx', hsame]

-- Some nodes give way to others, and all the rest is the same on both trees.
def Rewrites (root root' : Item) (old new : List Node) : Prop :=
  ∃ rest, root.nodes.Perm (old ++ rest) ∧ root'.nodes.Perm (new ++ rest)

theorem Exchange.rewrites {p p' x x' : Item} {names : List String} (h : Exchange p p' names x x')
    (hid : p'.id = p.id) {old new : List Node} (hp : Rewrites p p' old new) :
    Rewrites x x' old new := by
  obtain ⟨before, after, hx, hx'⟩ := h.nodes hid
  obtain ⟨rest, hold, hnew⟩ := hp
  have harrange (inner : List Node) :
      (before ++ (inner ++ rest) ++ after).Perm (inner ++ (rest ++ (before ++ after))) := by
    rw [← List.append_assoc inner, List.append_assoc before]
    exact List.perm_append_comm_assoc before (inner ++ rest) after
  refine ⟨rest ++ (before ++ after), ?_, ?_⟩
  · rw [hx]
    exact ((hold.append_left before).append_right after).trans (harrange old)
  · rw [hx']
    exact ((hnew.append_left before).append_right after).trans (harrange new)

end Item

end DesktopShell
