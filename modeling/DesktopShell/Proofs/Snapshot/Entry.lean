import DesktopShell.Proofs.Json.Parse
import DesktopShell.Proofs.Text.Base64
import DesktopShell.Proofs.Time.Rfc3339
import DesktopShell.Snapshot.Read

namespace DesktopShell

open Snapshot

namespace Json

theorem sound_ofOption {α : Type} {write : α → Json} (h : ∀ x, (write x).Sound) (o : Option α) :
    (ofOption write o).Sound := by
  cases o with
  | none => exact .null
  | some x => exact h x

theorem id?_ofNat (id : ItemId) : id? (ofNat id.toNat) = some id := by
  have hlt : id.toNat < UInt64.size := id.toNat_lt
  rw [ofNat, id?, Text.number?_repr, Option.bind_eq_bind, Option.bind_some, if_pos hlt,
    UInt64.ofNat_toNat]

theorem text?_ofString (s : String) : text? (ofString s) = some s := rfl

theorem bool?_bool (b : Bool) : bool? (.bool b) = some b := rfl

theorem bytes?_ofBytes (bytes : Bytes) : bytes? (ofBytes bytes) = some bytes := by
  rw [bytes?, ofBytes, text?_ofString, Option.bind_eq_bind, Option.bind_some, String.toList_ofList,
    Text.Base64.decode?_encode]

theorem moment?_ofMoment (m : Moment) : moment? (ofMoment m) = some m := by
  rw [moment?, ofMoment, text?_ofString, Option.bind_eq_bind, Option.bind_some,
    Rfc3339.parse?_render]

end Json

namespace Snapshot

theorem kind?_name (room : Nat) (k : Kind) : kind? room (.ofString k.name) = some k := by
  cases k <;> rfl

variable {α : Type} {fields : List (String × Json)} {name : String} {read : Json → Option α}

theorem required?_eq {v : Json} {x : α} (hv : fields.lookup name = some v) (hx : read v = some x) :
    required? fields name read = some x := by
  rw [required?, hv, Option.bind_some, hx]

theorem optional?_missing (hv : fields.lookup name = none) :
    optional? fields name read = some none := by
  rw [optional?, hv]

theorem optional?_given {v : Json} (hv : fields.lookup name = some v) (hnull : v ≠ .null) :
    optional? fields name read = (read v).map some := by
  rw [optional?, hv]
  cases v with
  | null => exact absurd rfl hnull
  | _ => rfl

theorem optional?_ofOption {write : α → Json} {o : Option α}
    (hv : fields.lookup name = some (.ofOption write o)) (hnull : ∀ x, write x ≠ .null)
    (hread : ∀ x, read (write x) = some x) : optional? fields name read = some o := by
  cases o with
  | none => rw [optional?, hv, Json.ofOption]
  | some x =>
      rw [Json.ofOption] at hv
      rw [optional?_given hv (hnull x), hread, Option.map_some]

end Snapshot

namespace Entry

variable (e : Entry) (children? : Option Json)

-- The members of an item whose children, if it has any, are written as `children?`.
def fields : List (String × Json) :=
  e.members (children?.map fun v => ("children", v)).toList

theorem keys_sublist : ((e.fields children?).map Prod.fst).Sublist fieldNames := by
  unfold fields members
  cases e.payload <;> cases children? <;>
    simp only [Option.map_none, Option.map_some, Option.toList_none, Option.toList_some,
      List.append_nil, List.cons_append, List.nil_append, List.map_cons, List.map_nil] <;>
    decide

theorem mapM_named (ms : List (String × Json)) :
    (ms.map fun m => (some m.1, m.2)).mapM (fun m => m.1.map (·, m.2)) = some ms := by
  induction ms with
  | nil => rfl
  | cons m ms ih =>
      rw [List.map_cons, List.mapM_cons, ih]
      rfl

theorem fields?_ofMembers : fields? (.ofMembers (e.fields children?)) = some (e.fields children?) := by
  have hkeys := e.keys_sublist children?
  generalize e.fields children? = ms at hkeys ⊢
  have hknown : ms.filter (fieldNames.contains ·.1) = ms := by
    refine List.filter_eq_self.mpr fun m hm => ?_
    exact List.contains_iff_mem.mpr (hkeys.subset (List.mem_map_of_mem hm))
  have hnodup : (ms.map Prod.fst).Nodup := hkeys.nodup (by decide)
  rw [Json.ofMembers, fields?]
  refine Option.bind_eq_some_iff.mpr ⟨ms, mapM_named ms, ?_⟩
  simp only [hknown, if_pos hnodup]

theorem lookup_fields :
    (e.fields children?).lookup "id" = some (.ofNat e.id.toNat) ∧
    (e.fields children?).lookup "name" = some (.ofString e.name) ∧
    (e.fields children?).lookup "kind" = some (.ofString e.kind.name) ∧
    (e.fields children?).lookup "extension" = some (.ofOption .ofString e.extension) ∧
    (e.fields children?).lookup "path" = some (.ofString e.path) ∧
    (e.fields children?).lookup "content" = some (.ofOption .ofString e.content) ∧
    (e.fields children?).lookup "payload" = e.payload.map .ofBytes ∧
    (e.fields children?).lookup "children" = children? ∧
    (e.fields children?).lookup "isProtected" = some (.bool e.isProtected) ∧
    (e.fields children?).lookup "isSystem" = some (.bool e.isSystem) ∧
    (e.fields children?).lookup "createdAt" = some (.ofMoment e.created) ∧
    (e.fields children?).lookup "modifiedAt" = some (.ofMoment e.modified) := by
  unfold fields members
  cases e.payload <;> cases children? <;> simp [List.lookup_cons]

theorem read_fields (room : Nat) : entry? room (e.fields children?) = some e := by
  obtain ⟨hid, hname, hkind, hextension, hpath, hcontent, hpayload, -, hprotected, hsystem,
    hcreated, hmodified⟩ := e.lookup_fields children?
  have hnull (s : String) : Json.ofString s ≠ .null := by
    intro h
    cases h
  have readPayload : optional? (e.fields children?) "payload" Json.bytes? = some e.payload := by
    cases hp : e.payload with
    | none => exact optional?_missing (by rw [hpayload, hp]; rfl)
    | some bytes =>
        have hbytes : (e.fields children?).lookup "payload" = some (.ofBytes bytes) := by
          rw [hpayload, hp]
          rfl
        rw [optional?_given hbytes (hnull _), Json.bytes?_ofBytes]
        rfl
  unfold entry?
  rw [required?_eq hid (Json.id?_ofNat _), required?_eq hname (Json.text?_ofString _),
    required?_eq hkind (kind?_name room _), optional?_ofOption hextension hnull Json.text?_ofString,
    required?_eq hpath (Json.text?_ofString _), optional?_ofOption hcontent hnull Json.text?_ofString,
    readPayload, required?_eq hprotected (Json.bool?_bool _),
    required?_eq hsystem (Json.bool?_bool _),
    required?_eq hcreated (Json.moment?_ofMoment _), required?_eq hmodified (Json.moment?_ofMoment _)]
  rfl

end Entry

end DesktopShell
