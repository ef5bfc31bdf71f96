import CandleAuction.Json.Records
import CandleAuction.Proofs.Json.RoundTrip

/-!
# Faithful JSON forms

A form is faithful if what it writes is plain and read back as the value. The
fields of a record are found by their names, whatever they hold, because no
name is given twice.
-/

namespace CandleAuction.Json

/-- What is written comes back, also as text. -/
class Form.Faithful (α : Type) [Form α] : Prop where
  read_write (value : α) : read (write value) = some value
  plain (value : α) : Plain (write value)

export Form.Faithful (read_write)

theorem mapM_map_eq_some {α β γ : Type} {f : β → Option γ} {g : α → β} {h : α → γ} {items : List α}
    (each : ∀ item ∈ items, f (g item) = some (h item)) :
    (items.map g).mapM f = some (items.map h) := by
  induction items with
  | nil => rfl
  | cons item rest inductionHypothesis =>
      obtain ⟨first, others⟩ := List.forall_mem_cons.mp each
      simp [first, inductionHypothesis others]

theorem readNat_number {α : Type} {bound : Nat} {ofNat : Nat → α} {toNat : α → Nat}
    (bounded : ∀ value, toNat value < bound) (ofNat_toNat : ∀ value, ofNat (toNat value) = value)
    (value : α) : ((number (toNat value)).readNat bound).map ofNat = some value := by
  rw [readNat, if_pos (bounded value), Option.map_some, ofNat_toNat]

instance : Form.Faithful UInt8 where
  read_write := readNat_number UInt8.toNat_lt fun _ => UInt8.ofNat_toNat
  plain _ := .number _

instance : Form.Faithful UInt32 where
  read_write := readNat_number UInt32.toNat_lt fun _ => UInt32.ofNat_toNat
  plain _ := .number _

instance : Form.Faithful UInt64 where
  read_write := readNat_number UInt64.toNat_lt fun _ => UInt64.ofNat_toNat
  plain _ := .number _

instance {α : Type} [Form α] [Form.Faithful α] : Form.Faithful (List α) where
  read_write items := by
    have back : (items.map write).mapM read = some (items.map id) :=
      mapM_map_eq_some fun item _ => read_write item
    rwa [List.map_id] at back
  plain items := .list fun item member => by
    obtain ⟨value, -, rfl⟩ := List.mem_map.mp member
    exact Form.Faithful.plain value

instance : Form.Faithful Address where
  read_write address := by
    show (read (write address.toList)).bind Address.ofList? = some address
    rw [read_write, Option.bind_some, Address.ofList?_toList]
  plain address := Form.Faithful.plain address.toList

instance : Form.Faithful IndexWidth where
  read_write width := by cases width <;> rfl
  plain _ := .text _

section Records

variable {fields : List (String × Json)}

theorem Plain.record (plain : ∀ field ∈ fields, Plain field.2) : Plain (record fields) :=
  .object fun field member => by
    obtain ⟨field, listed, rfl⟩ := List.mem_map.mp member
    exact plain field listed

theorem filter_eq_singleton (distinct : (fields.map Prod.fst).Nodup) {field : String × Json}
    (listed : field ∈ fields) : fields.filter (fun other => other.1 = field.1) = [field] := by
  induction fields with
  | nil => cases listed
  | cons other rest inductionHypothesis =>
      rw [List.map_cons, List.nodup_cons] at distinct
      obtain ⟨fresh, distinct⟩ := distinct
      rcases List.mem_cons.mp listed with rfl | listed
      · have others : rest.filter (fun other => other.1 = field.1) = [] :=
          List.filter_eq_nil_iff.mpr fun other member same =>
            fresh (List.mem_map.mpr ⟨other, member, of_decide_eq_true same⟩)
        rw [List.filter_cons_of_pos (by simp), others]
      · have ne : other.1 ≠ field.1 := fun same => fresh (same ▸ List.mem_map_of_mem listed)
        rw [List.filter_cons_of_neg (by simpa using ne)]
        exact inductionHypothesis distinct listed

theorem slot_of_mem (distinct : (fields.map Prod.fst).Nodup) {field : String × Json}
    (listed : field ∈ fields) : slot fields field.1 = some (.given field.2) := by
  rw [slot, filter_eq_singleton distinct listed]

/-- The fields of a record are found in the order in which they are written. -/
theorem slots_record {names : List String} (named : fields.map Prod.fst = names)
    (distinct : names.Nodup) :
    slots names (record fields) = some (fields.map fun field => .given field.2) := by
  subst named
  have found : (fields.map Prod.fst).mapM (slot fields) =
      some (fields.map fun field => .given field.2) :=
    mapM_map_eq_some fun field listed => slot_of_mem distinct listed
  rw [record, slots, mapM_map_eq_some (h := id), List.map_id]
  · exact found
  · exact fun _ _ => rfl

end Records

instance : Form.Faithful Settings where
  read_write s := by
    have found : slots Settings.fieldNames (write s) = some _ := slots_record rfl (by decide)
    show Option.bind (slots Settings.fieldNames (write s)) _ = some s
    rw [found]
    simp only [Option.bind_some, List.map_cons, List.map_nil, Slot.required, read_write]
    rfl
  plain s := Plain.record (by simp [Form.Faithful.plain])

instance : Form.Faithful Genesis where
  read_write g := by
    have found : slots Genesis.fieldNames (write g) = some _ := slots_record rfl (by decide)
    show Option.bind (slots Genesis.fieldNames (write g)) _ = some g
    rw [found]
    simp only [Option.bind_some, List.map_cons, List.map_nil, Slot.required, Slot.withDefault,
      read_write]
    rfl
  plain g := Plain.record (by simp [Form.Faithful.plain])

theorem readText?_render {α : Type} [Form α] [Form.Faithful α] (value : α) :
    readText? α (write value).render = some value := by
  rw [readText?, (Form.Faithful.plain value).parse?_render]
  exact read_write value

end CandleAuction.Json
