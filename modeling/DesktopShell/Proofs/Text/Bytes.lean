import DesktopShell.Text.Bytes
import Mathlib.Data.String.Basic

namespace DesktopShell.Text

theorem byteCount_eq (cs : List Char) : byteCount cs = (String.ofList cs).utf8ByteSize := by
  induction cs with
  | nil => rfl
  | cons c cs ih =>
      rw [byteCount, ih, ← List.singleton_append, String.ofList_append, String.utf8ByteSize_append,
        ← String.utf8ByteSize_singleton]
      rfl

theorem byteCount_toList (s : String) : byteCount s.toList = s.utf8ByteSize := by
  rw [byteCount_eq, String.ofList_toList]

-- The first `n` bytes are a text only if a character ends there.
theorem takeBytes_eq_some_iff {n : Nat} {cs before : List Char} :
    takeBytes n cs = some before ↔ ∃ after, cs = before ++ after ∧ byteCount before = n := by
  constructor
  · intro h
    induction n, cs using takeBytes.induct generalizing before with
    | case1 cs =>
        rw [takeBytes] at h
        obtain rfl := Option.some.inj h
        exact ⟨cs, rfl, rfl⟩
    | case2 n => cases h
    | case3 n c cs hc ih =>
        rw [takeBytes, if_pos hc] at h
        obtain ⟨rest, hrest, rfl⟩ := Option.map_eq_some_iff.mp h
        obtain ⟨after, rfl, hsize⟩ := ih hrest
        refine ⟨after, rfl, ?_⟩
        rw [byteCount, hsize]
        omega
    | case4 n c cs hc =>
        rw [takeBytes, if_neg hc] at h
        cases h
  · rintro ⟨after, rfl, rfl⟩
    exact takeBytes_append before after

-- The bytes of a text in UTF-8.
def bytes (s : String) : List UInt8 :=
  s.toUTF8.data.toList

theorem bytes_eq (s : String) : bytes s = s.toList.flatMap String.utf8EncodeChar := by
  have h : s.toByteArray = s.toList.utf8Encode := by
    rw [← String.toByteArray_ofList, String.ofList_toList]
  show s.toByteArray.data.toList = _
  rw [h, List.utf8Encode, List.data_toByteArray, List.toList_toArray]

theorem cons_ofNat_lt {m n : Nat} (h : m < n) (hn : n < 256) (s t : List UInt8) :
    UInt8.ofNat m :: s < UInt8.ofNat n :: t := by
  refine List.cons_lt_cons_iff.mpr (.inl (UInt8.lt_iff_toNat_lt.mpr ?_))
  rwa [UInt8.toNat_ofNat_of_lt' hn, UInt8.toNat_ofNat_of_lt' (Nat.lt_trans h hn)]

-- Six more bits of two numbers. The bytes of the bits before them decide if they differ.
theorem append_low_lt {a b : List UInt8} {v w : Nat} (h : v < w)
    (hhigh : v / 64 < w / 64 → ∀ s t, a ++ s < b ++ t) (hsame : v / 64 = w / 64 → a = b)
    (s t : List UInt8) :
    a ++ (UInt8.ofNat (v % 64 + 128) :: s) < b ++ (UInt8.ofNat (w % 64 + 128) :: t) := by
  rcases Nat.lt_or_eq_of_le (Nat.div_le_div_right h.le : v / 64 ≤ w / 64) with hlt | heq
  · exact hhigh hlt _ _
  · rw [hsame heq]
    exact List.append_left_lt (cons_ofNat_lt (by omega) (by omega) _ _)

-- The bytes of a smaller character come first, whatever follows either of them.
theorem encode_lt {c d : Char} (h : c < d) (s t : List UInt8) :
    String.utf8EncodeChar c ++ s < String.utf8EncodeChar d ++ t := by
  have hlt : c.val.toNat < d.val.toNat := h
  have hd : d.val.toNat < 0x110000 := by
    have := d.valid
    simp only [UInt32.isValidChar, Nat.isValidChar] at this
    omega
  unfold String.utf8EncodeChar
  generalize c.val.toNat = v at *
  generalize d.val.toNat = w at *
  have hdiv (n : Nat) : n / 4096 = n / 64 / 64 ∧ n / 262144 = n / 64 / 64 / 64 := by omega
  simp only [(hdiv v).1, (hdiv v).2, (hdiv w).1, (hdiv w).2]
  split_ifs
  all_goals try omega
  -- A character of more bytes starts with a larger one.
  all_goals try exact cons_ofNat_lt (by omega) (by omega) _ _
  -- Two, three or four bytes each.
  · exact append_low_lt (a := [_]) (b := [_]) hlt (fun h => cons_ofNat_lt (by omega) (by omega))
      (fun h => by rw [h]) s t
  · exact append_low_lt (a := [_, _]) (b := [_, _]) hlt
      (fun h => append_low_lt (a := [_]) (b := [_]) h
        (fun h => cons_ofNat_lt (by omega) (by omega)) (fun h => by rw [h]))
      (fun h => by rw [h]) s t
  · exact append_low_lt (a := [_, _, _]) (b := [_, _, _]) hlt
      (fun h => append_low_lt (a := [_, _]) (b := [_, _]) h
        (fun h => append_low_lt (a := [_]) (b := [_]) h
          (fun h => cons_ofNat_lt (by omega) (by omega)) (fun h => by rw [h]))
        (fun h => by rw [h]))
      (fun h => by rw [h]) s t

theorem flatMap_encode_lt {cs ds : List Char} (h : cs < ds) :
    cs.flatMap String.utf8EncodeChar < ds.flatMap String.utf8EncodeChar := by
  induction cs generalizing ds with
  | nil =>
      cases ds with
      | nil => exact absurd h (List.lt_irrefl _)
      | cons d ds =>
          obtain ⟨b, bs, hb⟩ := List.exists_cons_of_ne_nil (String.utf8EncodeChar_ne_nil (c := d))
          rw [List.flatMap_nil, List.flatMap_cons, hb, List.cons_append]
          exact List.nil_lt_cons b _
  | cons c cs ih =>
      cases ds with
      | nil => exact absurd h (List.not_lt_nil _)
      | cons d ds =>
          rw [List.flatMap_cons, List.flatMap_cons]
          rcases List.cons_lt_cons_iff.mp h with hlt | ⟨rfl, hrest⟩
          · exact encode_lt hlt _ _
          · exact List.append_left_lt (ih hrest)

-- Texts are ordered alike by their characters and by their bytes.
theorem bytes_lt_iff {a b : String} : bytes a < bytes b ↔ a < b := by
  rw [bytes_eq, bytes_eq, String.lt_iff_toList_lt]
  refine ⟨fun h => ?_, flatMap_encode_lt⟩
  rcases lt_trichotomy a b with hab | rfl | hba
  · exact String.lt_iff_toList_lt.mp hab
  · exact absurd h (List.lt_irrefl _)
  · exact absurd h (List.lt_asymm (flatMap_encode_lt (String.lt_iff_toList_lt.mp hba)))

theorem bytes_le_iff {a b : String} : bytes a ≤ bytes b ↔ a ≤ b :=
  not_congr bytes_lt_iff

end DesktopShell.Text
