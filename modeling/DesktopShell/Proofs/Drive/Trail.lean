import DesktopShell.Proofs.Drive.Commit
import DesktopShell.Proofs.Drive.Stock
import DesktopShell.Snapshot.Restore

namespace DesktopShell.Drive

open Moment (epoch)

-- The drives that a program can start with. A desktop may follow any of them.
inductive Origin : Drive → Prop
  | empty (now : Moment) (next : ItemId) : Origin (empty now next)
  | stock (now : Moment) (next : ItemId) : Origin (stock now next)
  | snapshot {next : ItemId} {text : String} {d : Drive} (restored : ofSnapshot next text = .ok d) :
      Origin d
  | desktop {d : Drive} (folder : String) (start : Origin d) : Origin (d.withDesktop folder)

-- The drive before the first and after each of several changes.
def trail (d : Drive) : List (Change × Moment) → List Drive
  | [] => [d]
  | (change, now) :: rest => d :: trail (d.after change now) rest

theorem ofSnapshot_eq_ok {next : ItemId} {text : String} {d : Drive}
    (h : ofSnapshot next text = .ok d) : Snapshot.tree? text = .ok d.root := by
  unfold ofSnapshot at h
  cases ht : Snapshot.tree? text with
  | error damage => rw [ht] at h; cases h
  | ok root => rw [ht] at h; cases h; rfl

theorem wellFormed_ofSnapshot {next : ItemId} {text : String} {d : Drive}
    (h : ofSnapshot next text = .ok d) : d.root.WellFormed := by
  have ht := ofSnapshot_eq_ok h
  unfold Snapshot.tree? at ht
  split at ht
  · cases ht
  · split at ht
    · cases ht
    · next hflaw =>
        cases ht
        exact (Snapshot.flaw?_eq_none_iff _).mp hflaw

theorem wellFormed_origin {d : Drive} (h : d.Origin) : d.root.WellFormed := by
  induction h with
  | empty now next => exact wellFormed_empty now next
  | stock now next => exact wellFormed_stock now next
  | snapshot restored => exact wellFormed_ofSnapshot restored
  | desktop folder start ih => exact ih

theorem self_mem_trail (d : Drive) (changes : List (Change × Moment)) : d ∈ d.trail changes := by
  cases changes with
  | nil => exact List.mem_singleton.mpr rfl
  | cons change rest => exact List.mem_cons_self

theorem trail_wellFormed {d : Drive} {changes : List (Change × Moment)}
    (hr : d.root.WellFormed) (hn : d.Numbered) (hwrap : ∀ d' ∈ d.trail changes, d'.nextId ≠ 0) :
    ∀ d' ∈ d.trail changes, d'.root.WellFormed := by
  induction changes generalizing d with
  | nil =>
      intro d' hd'
      obtain rfl := List.mem_singleton.mp hd'
      exact hr
  | cons change rest ih =>
      intro d' hd'
      obtain ⟨change, now⟩ := change
      rw [trail] at hwrap hd'
      rcases List.mem_cons.mp hd' with rfl | hd'
      · exact hr
      · have hnext := hwrap _ (List.mem_cons_of_mem d (self_mem_trail _ rest))
        have hstep := d.after_step change now
        have hr' := hstep.wellFormed (fun _ => hn.nextId_notMem) hr
        have hrest := fun d'' h => hwrap d'' (List.mem_cons_of_mem d h)
        exact ih hr' (hstep.numbered hr hn hnext) hrest d' hd'

-- The numbers do not wrap as long as there are at least as many left as there are changes.
theorem nextId_ne_zero_of_room {d : Drive} {changes : List (Change × Moment)}
    (hpos : 0 < d.nextId.toNat) (hroom : d.nextId.toNat + changes.length < UInt64.size) :
    ∀ d' ∈ d.trail changes, d'.nextId ≠ 0 := by
  induction changes generalizing d with
  | nil =>
      intro d' hd' hzero
      obtain rfl := List.mem_singleton.mp hd'
      simp [hzero] at hpos
  | cons change rest ih =>
      intro d' hd'
      obtain ⟨change, now⟩ := change
      rw [List.length_cons] at hroom
      rcases List.mem_cons.mp hd' with rfl | hd'
      · intro hzero
        simp [hzero] at hpos
      · have hnext := (d.after_step change now).toNat_nextId (by omega)
        exact ih (by omega) (by omega) d' hd'

-- No change of any kind, wherever it is aimed and whatever names it gives, spoils the tree. The
-- numbers go up by one, so that a wrap shows as a next number of zero.
theorem wellFormed_of_mem_trail {d : Drive} (start : d.Origin)
    (above : ∀ i ∈ d.root.ids, i < d.nextId) {changes : List (Change × Moment)}
    (unwrapped : ∀ d' ∈ d.trail changes, d'.nextId ≠ 0) :
    ∀ d' ∈ d.trail changes, d'.root.WellFormed ∧ Snapshot.flaw? d'.root = none := by
  intro d' hd'
  have hr := trail_wellFormed (wellFormed_origin start) above unwrapped d' hd'
  exact ⟨hr, (Snapshot.flaw?_eq_none_iff _).mpr hr⟩

-- A name with a slash, an empty name, one that is taken, and a file that goes again.
def oddChanges : List (Change × Moment) :=
  [ (.create .folder "/My Documents" "a/b", epoch),
    (.create (.text "") "/" "", epoch),
    (.create (.binary []) "/Desktop" "readme.txt", epoch),
    (.update "/Desktop/readme.txt" "second", epoch),
    (.delete "/Desktop/readme.txt", epoch) ]

theorem wellFormed_of_mem_trail_stock :
    (stock epoch 1).Origin ∧ (∀ i ∈ (stock epoch 1).root.ids, i < (stock epoch 1).nextId) ∧
      (∀ d' ∈ (stock epoch 1).trail oddChanges, d'.nextId ≠ 0) ∧
      ∀ d' ∈ (stock epoch 1).trail oddChanges,
        d'.root.WellFormed ∧ Snapshot.flaw? d'.root = none := by
  have habove := Layout.drive_above epoch 1 stockLayout (by decide)
  have hroom : ∀ d' ∈ (stock epoch 1).trail oddChanges, d'.nextId ≠ 0 := by
    have hnext : (stock epoch 1).nextId = 27 := nextId_stock epoch 1
    apply nextId_ne_zero_of_room <;> rw [hnext] <;> decide
  exact ⟨.stock epoch 1, habove, hroom,
    wellFormed_of_mem_trail (.stock epoch 1) habove hroom⟩

end DesktopShell.Drive
