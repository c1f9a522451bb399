import DesktopShell.Proofs.Path.Canonical
import DesktopShell.Proofs.Path.Follow
import Mathlib.Algebra.BigOperators.Group.List.Basic
import Mathlib.Data.List.DropRight

namespace DesktopShell.Path

section Lists

variable {α : Type}

theorem rdrop_append (l m : List α) (n : Nat) :
    (l ++ m).rdrop n = l.rdrop (n - m.length) ++ m.rdrop n := by
  simp only [List.rdrop_eq_reverse_drop_reverse, List.reverse_append, List.drop_append,
    List.length_reverse]

theorem rdrop_rdrop (l : List α) (i j : Nat) : (l.rdrop i).rdrop j = l.rdrop (i + j) := by
  simp only [List.rdrop_eq_reverse_drop_reverse, List.reverse_reverse, List.drop_drop]

theorem length_rdrop (l : List α) (n : Nat) : (l.rdrop n).length = l.length - n := by
  rw [List.rdrop, List.length_take]
  omega

theorem rdrop_one (l : List α) : l.rdrop 1 = l.dropLast := List.dropLast_eq_take.symm

end Lists

-- A walk as it is seen from its two ends: so many folders up, and from there down along these names.
structure Move where
  up : Nat
  down : List String
  deriving DecidableEq

namespace Move

-- Where the move leads from here. It stops at the top, however far up it would go.
def apply (m : Move) (here : List String) : List String :=
  here.rdrop m.up ++ m.down

-- One move after the other. What the second one goes up is taken back from the way down of the first
-- one, and only the rest of it goes on above the folder where the first one turned.
instance : Mul Move where
  mul m n := ⟨m.up + (n.up - m.down.length), m.down.rdrop n.up ++ n.down⟩

instance : One Move where
  one := ⟨0, []⟩

theorem mul_eq (m n : Move) :
    m * n = ⟨m.up + (n.up - m.down.length), m.down.rdrop n.up ++ n.down⟩ := rfl

theorem one_eq : (1 : Move) = ⟨0, []⟩ := rfl

instance : Monoid Move where
  one_mul m := by simp [mul_eq, one_eq]
  mul_one m := by simp [mul_eq, one_eq]
  mul_assoc m n k := by
    have hup : m.up + (n.up - m.down.length) + (k.up - (m.down.length - n.up + n.down.length)) =
        m.up + (n.up + (k.up - n.down.length) - m.down.length) := by
      omega
    simp only [mul_eq, rdrop_append, rdrop_rdrop, List.length_append, length_rdrop, hup,
      List.append_assoc]

theorem apply_one (here : List String) : apply 1 here = here := by
  simp [apply, one_eq]

theorem apply_mul (m n : Move) (here : List String) : (m * n).apply here = n.apply (m.apply here) := by
  simp only [apply, mul_eq, rdrop_append, rdrop_rdrop, List.append_assoc]

def ofPart (part : String) : Move :=
  if part = "." then 1 else if part = ".." then ⟨1, []⟩ else ⟨0, [part]⟩

def ofParts (parts : List String) : Move :=
  (parts.map ofPart).prod

theorem apply_ofPart (part : String) (here : List String) : (ofPart part).apply here = step here part := by
  unfold ofPart step
  split
  · exact apply_one here
  · split
    · rw [apply, rdrop_one, List.append_nil]
    · rw [apply, List.rdrop_zero]

theorem apply_ofParts (parts here : List String) :
    (ofParts parts).apply here = parts.foldl Path.step here := by
  induction parts generalizing here with
  | nil => exact apply_one here
  | cons part parts ih =>
      rw [ofParts, List.map_cons, List.prod_cons, apply_mul, apply_ofPart, List.foldl_cons]
      exact ih (step here part)

theorem ofParts_append (parts more : List String) :
    ofParts (parts ++ more) = ofParts parts * ofParts more := by
  rw [ofParts, List.map_append, List.prod_append]
  rfl

end Move

def IsAbsolute (target : String) : Prop :=
  target.toList.head? = some '/'

instance (target : String) : Decidable (IsAbsolute target) :=
  inferInstanceAs (Decidable (_ = _))

variable {target : String}

theorem resolve_of_isAbsolute (h : IsAbsolute target) (current : String) :
    resolve current target = normalize target := if_pos h

theorem resolve_of_not_isAbsolute (h : ¬IsAbsolute target) (current : String) :
    resolve current target = render ((Move.ofParts (segments target)).apply (segments current)) := by
  rw [Move.apply_ofParts]
  exact if_neg h

theorem segments_resolve_of_not_isAbsolute (h : ¬IsAbsolute target) (current : String) :
    segments (resolve current target) =
      (Move.ofParts (segments target)).apply (segments current) := by
  rw [resolve_of_not_isAbsolute h, Move.apply_ofParts]
  exact segments_render (isName_of_mem_foldl (fun _ => isName_of_mem_segments)
    fun _ => isName_of_mem_segments)

theorem not_isAbsolute_append {a : String} (hne : a ≠ "") (h : ¬IsAbsolute a) (b : String) :
    ¬IsAbsolute (a ++ b) := by
  obtain ⟨c, cs, hcs⟩ := List.exists_cons_of_ne_nil (mt String.toList_eq_nil_iff.mp hne)
  rw [IsAbsolute, hcs] at h
  rwa [IsAbsolute, String.toList_append, hcs]

theorem isCanonical_resolve (current target : String) : IsCanonical (resolve current target) := by
  rw [resolve_eq_render]
  exact isCanonical_render fun _ => isName_of_mem_segments

-- Whether a relative way is gone in one go or in two, it leads to the same place: its second part
-- goes up out of what the first part went down, then out of the folder where all began, and no
-- further than to the top. Where any way leads is spelled canonically, and from spellings of one
-- folder, or along an absolute way from any two folders, it is the same place.
theorem resolve_append_slash (current : String) :
    (∀ a b, a ≠ "" → ¬IsAbsolute a → ¬IsAbsolute b →
      resolve current (a ++ "/" ++ b) = resolve (resolve current a) b ∧
        segments (resolve current (a ++ "/" ++ b)) =
          (Move.ofParts (segments a) * Move.ofParts (segments b)).apply (segments current)) ∧
      (∀ target, IsCanonical (resolve current target)) ∧
      (∀ target other, segments other = segments current →
        resolve other target = resolve current target) ∧
      ∀ target other, IsAbsolute target → resolve other target = resolve current target := by
  refine ⟨fun a b hne ha hb => ?_, isCanonical_resolve current, fun target other hsame => ?_,
    fun target other habsolute => ?_⟩
  · have hab : ¬IsAbsolute (a ++ "/" ++ b) := by
      rw [String.append_assoc]
      exact not_isAbsolute_append hne ha _
    have hmove : Move.ofParts (segments (a ++ "/" ++ b)) =
        Move.ofParts (segments a) * Move.ofParts (segments b) := by
      rw [segments_append_slash, Move.ofParts_append]
    constructor
    · rw [resolve_of_not_isAbsolute hab, resolve_of_not_isAbsolute hb,
        segments_resolve_of_not_isAbsolute ha, hmove, Move.apply_mul]
    · rw [segments_resolve_of_not_isAbsolute hab, hmove]
  · by_cases habsolute : IsAbsolute target
    · rw [resolve_of_isAbsolute habsolute, resolve_of_isAbsolute habsolute]
    · rw [resolve_of_not_isAbsolute habsolute, resolve_of_not_isAbsolute habsolute, hsame]
  · rw [resolve_of_isAbsolute habsolute, resolve_of_isAbsolute habsolute]

-- The first part ends one folder above the start. The second one goes up four times, past the top,
-- and down again.
theorem resolve_append_slash_seam :
    let a := "Guest/./..//.."
    let b := "docs/../../../../.hidden//x/"
    a ≠ "" ∧ ¬IsAbsolute a ∧ ¬IsAbsolute b ∧
      Move.ofParts (segments a) = ⟨1, []⟩ ∧ Move.ofParts (segments b) = ⟨3, [".hidden", "x"]⟩ ∧
      resolve "//C:/Users" (a ++ "/" ++ b) = resolve (resolve "//C:/Users" a) b ∧
      segments (resolve "//C:/Users" (a ++ "/" ++ b)) = [".hidden", "x"] ∧
      segments "/C://Users/" = segments "//C:/Users" ∧
      resolve "/C://Users/" b = resolve "//C:/Users" b ∧
      IsAbsolute "/../x" ∧ resolve "C:" "/../x" = resolve "//C:/Users" "/../x" := by
  obtain ⟨happend, -, hspelled, habsolute⟩ := resolve_append_slash "//C:/Users"
  have hne : "Guest/./..//.." ≠ "" := by decide
  have ha : ¬IsAbsolute "Guest/./..//.." := by decide
  have hb : ¬IsAbsolute "docs/../../../../.hidden//x/" := by decide
  obtain ⟨hsame, hmoved⟩ := happend _ _ hne ha hb
  have hsegments : segments "/C://Users/" = segments "//C:/Users" := by decide
  refine ⟨hne, ha, hb, by decide, by decide, hsame, hmoved.trans (by decide), hsegments,
    hspelled _ _ hsegments, rfl, habsolute _ _ rfl⟩

end DesktopShell.Path
