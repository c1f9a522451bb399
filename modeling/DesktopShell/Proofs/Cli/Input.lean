import DesktopShell.Cli.Input
import DesktopShell.Proofs.Text.Bytes

namespace DesktopShell

namespace Text

-- No byte of another character is the byte of a line feed.
theorem newline_mem_encode {c : Char} (h : Cli.newline ∈ String.utf8EncodeChar c) : c = '\n' := by
  have hbyte {n : Nat} (he : Cli.newline = UInt8.ofNat n) (hn : n < 256) : n = 10 := by
    have hnat : (10 : Nat) = (UInt8.ofNat n).toNat := congrArg UInt8.toNat he
    rw [UInt8.toNat_ofNat_of_lt' hn] at hnat
    exact hnat.symm
  have hhigh {n : Nat} (he : Cli.newline = UInt8.ofNat n) (hlow : 10 < n) : ¬ n < 256 :=
    fun hn => hlow.ne' (hbyte he hn)
  unfold String.utf8EncodeChar at h
  dsimp only at h
  split_ifs at h <;> simp only [List.mem_cons, List.not_mem_nil, or_false] at h
  · have hval : c.val.toNat = 10 := hbyte h (by omega)
    exact Char.ext (UInt32.toNat_inj.mp hval)
  · rcases h with he | he
    all_goals exact absurd (by omega) (hhigh he (by omega))
  · rcases h with he | he | he
    all_goals exact absurd (by omega) (hhigh he (by omega))
  · rcases h with he | he | he | he
    all_goals exact absurd (by omega) (hhigh he (by omega))

theorem newline_notMem_bytes {s : String} (h : '\n' ∉ s.toList) : Cli.newline ∉ bytes s := by
  rw [bytes_eq, List.mem_flatMap]
  rintro ⟨c, hc, hmem⟩
  exact h (newline_mem_encode hmem ▸ hc)

end Text

namespace Cli

-- Bytes are a text only if they are its bytes.
theorem text?_eq_some_iff {bytes : Bytes} {text : String} :
    text? bytes = some text ↔ bytes = Text.bytes text := by
  unfold text? String.fromUTF8?
  constructor
  · intro h
    split at h
    · obtain rfl := Option.some.inj h
      rfl
    · cases h
  · rintro rfl
    exact dif_pos text.isValidUTF8

theorem text?_eq_none_iff {bytes : Bytes} :
    text? bytes = none ↔ ∀ text, bytes ≠ Text.bytes text := by
  rw [Option.eq_none_iff_forall_ne_some]
  exact forall_congr' fun text => not_congr text?_eq_some_iff

theorem hear_bytes (text : String) :
    hear (Text.bytes text) =
      let line := String.ofList (Text.dropEnd (· = '\r') text.toList)
      if Text.trim line = "exit" ∨ Text.trim line = "quit" then .leave else .line line := by
  rw [hear, text?_eq_some_iff.mpr rfl]

theorem hear_eq_garbled_iff {chunk : Bytes} :
    hear chunk = .garbled ↔ ∀ text, chunk ≠ Text.bytes text := by
  rw [← text?_eq_none_iff]
  constructor
  · intro h
    cases htext : text? chunk with
    | none => rfl
    | some text =>
        rw [text?_eq_some_iff.mp htext, hear_bytes] at h
        dsimp only at h
        split at h <;> cases h
  · intro h
    rw [hear, h]

theorem chunks_append {bytes : Bytes} (h : newline ∉ bytes) (rest : Bytes) :
    chunks (bytes ++ newline :: rest) = bytes :: chunks rest := by
  induction bytes with
  | nil => rw [List.nil_append, chunks, if_pos rfl]
  | cons b bytes ih =>
      rw [List.mem_cons, not_or] at h
      rw [List.cons_append, chunks, if_neg (Ne.symm h.1), ih h.2]

-- A line that can be typed and is run as it was.
structure IsPlain (line : String) : Prop where
  unbroken : '\n' ∉ line.toList
  ending : line.toList.getLast? ≠ some '\r'
  stays : Text.trim line ≠ "exit" ∧ Text.trim line ≠ "quit"

instance (line : String) : Decidable (IsPlain line) :=
  decidable_of_iff ('\n' ∉ line.toList ∧ line.toList.getLast? ≠ some '\r' ∧
      Text.trim line ≠ "exit" ∧ Text.trim line ≠ "quit")
    ⟨fun ⟨unbroken, ending, stays⟩ => ⟨unbroken, ending, stays⟩,
      fun h => ⟨h.unbroken, h.ending, h.stays⟩⟩

theorem IsPlain.hear_bytes {line : String} (h : IsPlain line) :
    hear (Text.bytes line) = .line line := by
  rw [Cli.hear_bytes]
  dsimp only
  rw [Text.dropEnd_of_getLast?_ne h.ending, String.ofList_toList, if_neg (not_or.mpr h.stays)]

-- An input on which each of these lines has been ended.
def typed (lines : List String) : Bytes :=
  lines.flatMap fun line => Text.bytes line ++ [newline]

theorem ofChunks_typed {lines : List String} (h : ∀ line ∈ lines, IsPlain line) :
    Script.ofChunks (chunks (typed lines)) = ⟨lines, true⟩ := by
  induction lines with
  | nil => rfl
  | cons line lines ih =>
      obtain ⟨hline, hlines⟩ := List.forall_mem_cons.mp h
      rw [typed, List.flatMap_cons, List.append_assoc, List.singleton_append,
        chunks_append (Text.newline_notMem_bytes hline.unbroken), Script.ofChunks,
        hline.hear_bytes]
      dsimp only
      rw [← typed, ih hlines]

-- What a run reads of its input: all up to the wish to leave.
def heard (input : Bytes) : List Bytes :=
  (chunks input).takeWhile fun chunk => hear chunk ≠ .leave

theorem isSound_ofChunks {chunks : List Bytes} :
    (Script.ofChunks chunks).isSound = true ↔
      ∀ chunk ∈ chunks.takeWhile fun chunk => hear chunk ≠ .leave, hear chunk ≠ .garbled := by
  induction chunks with
  | nil => simp [Script.ofChunks]
  | cons chunk chunks ih =>
      rw [Script.ofChunks, List.takeWhile_cons]
      cases hchunk : hear chunk with
      | leave => simp
      | garbled => simp [hchunk]
      | line text => simp [hchunk, ih]

theorem lines_ofChunks {chunks : List Bytes} (h : (Script.ofChunks chunks).isSound = true) :
    List.Forall₂ (fun chunk line => hear chunk = .line line)
      (chunks.takeWhile fun chunk => hear chunk ≠ .leave) (Script.ofChunks chunks).lines := by
  induction chunks with
  | nil => exact .nil
  | cons chunk chunks ih =>
      rw [Script.ofChunks] at h ⊢
      rw [List.takeWhile_cons]
      cases hchunk : hear chunk with
      | leave => exact .nil
      | garbled =>
          rw [hchunk] at h
          cases h
      | line text =>
          rw [hchunk] at h
          exact .cons hchunk (ih h)

end Cli

end DesktopShell
