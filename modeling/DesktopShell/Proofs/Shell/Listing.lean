import DesktopShell.Proofs.Drive.Stem
import DesktopShell.Proofs.Shell.Call
import DesktopShell.Proofs.Shell.Pacing
import Mathlib.Data.List.Forall2

namespace DesktopShell

-- The size of an item: bytes of the payload, else of the text, else none.
inductive Item.Sized (x : Item) : Nat → Prop
  | payload {payload : Bytes} (holds : x.entry.payload = some payload) : Sized x payload.length
  | content {content : String} (bare : x.entry.payload = none)
      (holds : x.entry.content = some content) : Sized x content.utf8ByteSize
  | empty (bare : x.entry.payload = none) (blank : x.entry.content = none) : Sized x 0

theorem Item.sized_size (x : Item) : x.Sized x.size := by
  unfold size
  split
  · next holds => exact .payload holds
  · next bare holds =>
      rw [Text.byteCount_toList]
      exact .content bare holds
  · next bare blank => exact .empty bare blank

-- A text behind as many blanks as it takes to fill a column.
def Text.AlignedRight (width : Nat) (text column : String) : Prop :=
  ∃ n, column.toList = List.replicate n ' ' ++ text.toList ∧ column.length = max width text.length

theorem Text.alignedRight_padLeft (width : Nat) (text : String) :
    Text.AlignedRight width text (Text.padLeft width text) := by
  refine ⟨width - text.length, ?_, ?_⟩
  · rw [padLeft, String.toList_append, String.toList_ofList]
  · rw [padLeft, String.length_append, String.length_ofList, List.length_replicate]
    omega

namespace Browse

-- Children in the order in which a folder is listed: folders before files, both by the bytes of their
-- names, and children of one kind and one name as they stand in the folder.
structure Listed (children shown : List Item) : Prop where
  perm : shown.Perm children
  foldersFirst : shown.Pairwise fun a b => b.isFolder = true → a.isFolder = true
  sorted : shown.Pairwise fun a b => a.isFolder = b.isFolder →
    Text.bytes a.name ≤ Text.bytes b.name
  stable : ∀ folder name,
    (shown.filter fun x => x.isFolder = folder && x.name = name) =
      children.filter fun x => x.isFolder = folder && x.name = name

-- What a line of a listing tells of an item.
inductive Describes : Item → Line → Prop
  | folder {x : Item} (folder : x.isFolder = true) :
      Describes x (.entry x.name "<DIR>" .directory)
  | program {x : Item} {size : Nat} {column : String} (file : x.isFolder = false)
      (sized : x.Sized size) (aligned : Text.AlignedRight 8 (Nat.repr size) column)
      (program : x.entry.extension = some "exe" ∨ x.entry.extension = some "lnk") :
      Describes x (.entry x.name column .executable)
  | file {x : Item} {size : Nat} {column : String} (file : x.isFolder = false)
      (sized : x.Sized size) (aligned : Text.AlignedRight 8 (Nat.repr size) column)
      (other : ¬(x.entry.extension = some "exe" ∨ x.entry.extension = some "lnk")) :
      Describes x (.entry x.name column .file)

-- The children of a folder in the order in which they are listed.
def ordered (children : List Item) : List Item :=
  sortByName (children.filter (·.isFolder)) ++ sortByName (children.filter (!·.isFolder))

section Sorted

variable (items : List Item)

def nameLe (a b : Item) : Bool :=
  a.name ≤ b.name

theorem nameLe_trans (a b c : Item) (hab : nameLe a b = true) (hbc : nameLe b c = true) :
    nameLe a c = true :=
  decide_eq_true (le_trans (of_decide_eq_true hab) (of_decide_eq_true hbc))

theorem nameLe_total (a b : Item) : (nameLe a b || nameLe b a) = true := by
  simpa [nameLe] using le_total a.name b.name

theorem sortByName_perm : (sortByName items).Perm items :=
  List.mergeSort_perm items nameLe

theorem pairwise_sortByName : (sortByName items).Pairwise fun a b => a.name ≤ b.name :=
  (List.pairwise_mergeSort nameLe_trans nameLe_total items).imp of_decide_eq_true

theorem mem_sortByName {x : Item} : x ∈ sortByName items ↔ x ∈ items :=
  (sortByName_perm items).mem_iff

-- Items of one name stay as they stand: all of them together are in order already.
theorem filter_sortByName (name : String) :
    (sortByName items).filter (·.name = name) = items.filter (·.name = name) := by
  have hsame : (items.filter (·.name = name)).Pairwise fun a b => nameLe a b = true := by
    refine List.pairwise_of_forall_mem_list fun a ha b hb => ?_
    have ha : a.name = name := by simpa using (List.mem_filter.mp ha).2
    have hb : b.name = name := by simpa using (List.mem_filter.mp hb).2
    simp [nameLe, ha, hb]
  have hsub := List.sublist_mergeSort nameLe_trans nameLe_total hsame List.filter_sublist
  have hnamed := hsub.filter (·.name = name)
  rw [List.filter_filter] at hnamed
  simp only [Bool.and_self] at hnamed
  have hlength := ((sortByName_perm items).filter (·.name = name)).length_eq
  exact (hnamed.eq_of_length hlength.symm).symm

end Sorted

theorem ordered_perm (children : List Item) : (ordered children).Perm children := by
  have happend := (sortByName_perm (children.filter (·.isFolder))).append
    (sortByName_perm (children.filter (!·.isFolder)))
  exact happend.trans (List.filter_append_perm _ children)

section Ordered

variable {children : List Item} {x : Item}

theorem isFolder_of_mem_folders (h : x ∈ sortByName (children.filter (·.isFolder))) :
    x.isFolder = true :=
  (List.mem_filter.mp ((mem_sortByName _).mp h)).2

theorem isFolder_of_mem_files (h : x ∈ sortByName (children.filter (!·.isFolder))) :
    x.isFolder = false := by
  simpa using (List.mem_filter.mp ((mem_sortByName _).mp h)).2

theorem filter_kind (children : List Item) (folder : Bool) :
    (children.filter (·.isFolder) ++ children.filter (!·.isFolder)).filter (·.isFolder = folder) =
      children.filter (·.isFolder = folder) := by
  rw [List.filter_append, List.filter_filter, List.filter_filter]
  cases folder <;> simp

theorem listed_ordered (children : List Item) : Listed children (ordered children) where
  perm := ordered_perm children
  foldersFirst := by
    refine List.pairwise_append.mpr ⟨?_, ?_, fun a ha b hb hfolder => isFolder_of_mem_folders ha⟩
    · exact List.pairwise_of_forall_mem_list fun a ha b hb _ => isFolder_of_mem_folders ha
    · refine List.pairwise_of_forall_mem_list fun a ha b hb hfolder => ?_
      rw [isFolder_of_mem_files hb] at hfolder
      cases hfolder
  sorted := by
    simp only [Text.bytes_le_iff]
    refine List.pairwise_append.mpr ⟨?_, ?_, fun a ha b hb hsame => ?_⟩
    · exact (pairwise_sortByName _).imp fun {a b} h (_ : a.isFolder = b.isFolder) => h
    · exact (pairwise_sortByName _).imp fun {a b} h (_ : a.isFolder = b.isFolder) => h
    · rw [isFolder_of_mem_folders ha, isFolder_of_mem_files hb] at hsame
      cases hsame
  stable folder name := by
    rw [← List.filter_filter, ← List.filter_filter, ordered, List.filter_append,
      filter_sortByName, filter_sortByName]
    rw [← List.filter_append, List.filter_comm, filter_kind, List.filter_comm]

end Ordered

theorem describes_file {x : Item} (h : x.isFolder = false) :
    Describes x (.entry x.name (Text.padLeft 8 (Nat.repr x.size)) (styleOf x)) := by
  have haligned := Text.alignedRight_padLeft 8 (Nat.repr x.size)
  unfold styleOf
  split
  · next hexe => exact .program h x.sized_size haligned (Item.isExecutable_iff.mp hexe)
  · next hexe => exact .file h x.sized_size haligned fun hext => hexe (Item.isExecutable_iff.mpr hext)

theorem forall₂_listing (folder : Item) :
    List.Forall₂ Describes (ordered folder.children) (listing folder) := by
  unfold listing ordered
  rw [List.partition_eq_filter_filter]
  simp only
  apply List.rel_append
  · rw [List.forall₂_map_right_iff]
    exact List.forall₂_same.mpr fun x hx => .folder (isFolder_of_mem_folders hx)
  · rw [List.forall₂_map_right_iff]
    exact List.forall₂_same.mpr fun x hx => describes_file (isFolder_of_mem_files hx)

theorem call_list {s : Scene} {call : Call} {x : Item}
    (hfound : s.lookup? (call.line.firstArg?.getD ".") = some x) (hfolder : x.isFolder = true)
    (hfilled : x.children ≠ []) :
    s.call Registry.list call = (s, .ok (.ofLines (listing x))) := by
  have hempty : x.children.isEmpty = false := by simpa using hfilled
  have hreply : list call s = s.done (.ofLines (listing x)) := by
    unfold list
    simp only [hfound, hfolder, hempty, Bool.not_true, Bool.false_eq_true, if_false]
  simp only [Scene.call, Registry.list, hreply, Scene.done]

section Line

variable {s : Scene} {line : String} {x : Item}

theorem execute_list (hnamed : (CommandLine.parse line).name ∈ ["ls", "dir"])
    (hfound : s.lookup? ((CommandLine.parse line).firstArg?.getD ".") = some x)
    (hfolder : x.isFolder = true) (hfilled : x.children ≠ []) (clock : Clock) :
    s.execute Registry.builtin clock line = (s, .ok (.ofLines (listing x))) := by
  have hlist : Registry.list ∈ Registry.builtin := by simp [Registry.builtin]
  have hnames : Registry.names Registry.list = ["ls", "dir"] := rfl
  rw [← hnames] at hnamed
  rw [s.execute_of_name hlist hnamed]
  let call : Call := ⟨CommandLine.parse line, Registry.builtin.catalog, clock⟩
  have hfound : s.lookup? (call.line.firstArg?.getD ".") = some x := hfound
  exact call_list hfound hfolder hfilled

-- A folder with something in it is listed with one line for each child, and nothing else is shown
-- when the line that asks for it is submitted.
theorem listed_execute (named : (CommandLine.parse line).name ∈ ["ls", "dir"])
    (found : s.lookup? ((CommandLine.parse line).firstArg?.getD ".") = some x)
    (folder : x.isFolder = true) (filled : x.children ≠ []) :
    ∃ shown lines, Listed x.children shown ∧ List.Forall₂ Describes shown lines ∧
      ∀ clock, s.execute Registry.builtin clock line = (s, .ok (.ofLines lines)) ∧
        (s.receive ⟨line, clock, none⟩).log =
          s.feed ++ .shown (.command s.session.prompt line) :: lines.map .shown := by
  refine ⟨_, _, listed_ordered x.children, forall₂_listing x, fun clock =>
    ⟨execute_list named found folder filled clock, ?_⟩⟩
  have hecho := s.echoed_ready line
  have hready : (s.ready line).lookup? ((CommandLine.parse line).firstArg?.getD ".") = some x := by
    rw [Scene.lookup?, Scene.locate, hecho.drive_eq, hecho.path_eq]
    exact found
  rw [← Scene.feed_of_idle _ (s.pending_receive rfl), s.feed_receive, Scene.start_fst,
    execute_list named hready folder filled clock]
  show ((s.ready line).apply (.ofLines (listing x))).feed = _
  rw [Scene.feed_apply _ (s.ready_pending line), s.ready_log, List.append_assoc]
  rfl

-- A guest who lists a folder in which names, kinds and extensions differ.
theorem listed_execute_windows :
    (CommandLine.parse "DIR /C:/Windows").name ∈ ["ls", "dir"] ∧
      ∃ x, Scene.guest.lookup? ((CommandLine.parse "DIR /C:/Windows").firstArg?.getD ".") = some x ∧
        x.isFolder = true ∧ x.children ≠ [] ∧
        ∃ shown lines, Listed x.children shown ∧ List.Forall₂ Describes shown lines ∧
          ∀ clock, Scene.guest.execute Registry.builtin clock "DIR /C:/Windows" =
              (Scene.guest, .ok (.ofLines lines)) ∧
            (Scene.guest.receive ⟨"DIR /C:/Windows", clock, none⟩).log =
              Scene.guest.feed ++
                .shown (.command Scene.guest.session.prompt "DIR /C:/Windows") ::
                  lines.map .shown := by
  have hnamed : (CommandLine.parse "DIR /C:/Windows").name ∈ ["ls", "dir"] := by decide +kernel
  have hfacts : (Scene.guest.lookup?
      ((CommandLine.parse "DIR /C:/Windows").firstArg?.getD ".")).map
        (fun x => (x.isFolder, x.children.isEmpty)) = some (true, false) := by
    decide +kernel
  obtain ⟨x, hfound, hx⟩ := Option.map_eq_some_iff.mp hfacts
  obtain ⟨hfolder, hempty⟩ := Prod.mk.inj hx
  have hfilled : x.children ≠ [] := by simpa using hempty
  exact ⟨hnamed, x, hfound, hfolder, hfilled, listed_execute hnamed hfound hfolder hfilled⟩

end Line

end Browse

end DesktopShell
