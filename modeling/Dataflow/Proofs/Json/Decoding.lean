import Mathlib.Data.List.Nodup
import Dataflow.Json.Decode

/-!
# Decoders and encoders

A decoder that is given what the encoder of the same kind made gives back the value.

## What is proved

For numbers, lists, values that may be absent, records and choices: each one restores its value if its parts restore
theirs. A record is restored from its members in any number, because their names differ (`fields_object`); the absent
value is restored only because no present one is written as null (`asOption_ofOption`).
-/

namespace Dataflow

/-! ### Results of decoding -/

namespace Decoded

@[simp]
theorem ok_bind {α β : Type} (x : α) (f : α → Decoded β) : (Except.ok x >>= f) = f x := rfl

@[simp]
theorem ok_map {α β : Type} (x : α) (f : α → β) : (Except.ok x : Decoded α).map f = .ok (f x) := rfl

@[simp]
theorem pure_eq_ok {α : Type} (x : α) : (pure x : Decoded α) = .ok x := rfl

/-- What comes out of the second step came out of the first one. -/
theorem of_bind_eq_ok {α β : Type} {x : Decoded α} {f : α → Decoded β} {b : β} (h : x >>= f = .ok b) :
    ∃ a, x = .ok a ∧ f a = .ok b := by
  cases x with
  | error e => cases h
  | ok a => exact ⟨a, rfl, h⟩

/-- Decoding each image of a list. -/
theorem mapM_map {α β γ : Type} {f : β → Decoded γ} {g : α → β} {h : α → γ} {l : List α}
    (step : ∀ x ∈ l, f (g x) = .ok (h x)) : (l.map g).mapM f = .ok (l.map h) := by
  induction l with
  | nil => rfl
  | cons x l ih =>
    rw [List.map_cons, List.mapM_cons, step x List.mem_cons_self, ih fun y hy => step y (List.mem_cons_of_mem x hy)]
    rfl

/-- What holds of whatever comes out of decoding an item holds of all items that do. -/
theorem forall_of_mapM_eq_ok {α β : Type} {f : α → Decoded β} {P : β → Prop} (made : ∀ x y, f x = .ok y → P y)
    {l : List α} {l' : List β} (h : l.mapM f = .ok l') : ∀ y ∈ l', P y := by
  induction l generalizing l' with
  | nil =>
    cases h
    exact fun _ hy => nomatch hy
  | cons x l ih =>
    rw [List.mapM_cons] at h
    obtain ⟨z, hz, h⟩ := of_bind_eq_ok h
    obtain ⟨zs, hzs, h⟩ := of_bind_eq_ok h
    cases h
    exact List.forall_mem_cons.2 ⟨made x z hz, ih hzs⟩

end Decoded

namespace Json

variable {α : Type} {read : Json → Decoded α} {write : α → Json}

/-! ### Plain values -/

@[simp]
theorem asString_string (s : String) : asString (string s) = .ok s := rfl

@[simp]
theorem asBool_bool (b : Bool) : asBool (bool b) = .ok b := rfl

theorem asIntegerIn_integer {low high n : Int} (h : low ≤ n ∧ n ≤ high) :
    asIntegerIn low high (integer n) = .ok n := by
  rw [asIntegerIn, if_pos h]

@[simp]
theorem asUInt32_ofUInt32 (n : UInt32) : asUInt32 (ofUInt32 n) = .ok n := by
  have bound := n.toNat_lt
  rw [asUInt32, ofUInt32, asIntegerIn_integer (by rw [UInt32.size]; omega)]
  simp

@[simp]
theorem asUInt64_ofUInt64 (n : UInt64) : asUInt64 (ofUInt64 n) = .ok n := by
  have bound := n.toNat_lt
  rw [asUInt64, ofUInt64, asIntegerIn_integer (by rw [UInt64.size]; omega)]
  simp

@[simp]
theorem asInt64_integer (n : Int64) : asInt64 (integer n.toInt) = .ok n := by
  rw [asInt64, asIntegerIn_integer ⟨Int64.le_iff_toInt_le.1 n.minValue_le, Int64.le_iff_toInt_le.1 n.le_maxValue⟩]
  simp

/-! ### Lists and absent values -/

theorem asList_ofList {l : List α} (h : ∀ x ∈ l, read (write x) = .ok x) : asList read (ofList write l) = .ok l :=
  (Decoded.mapM_map h).trans (by rw [List.map_id'])

theorem asOption_of_ne_null {j : Json} (h : j ≠ null) : asOption read j = (read j).map some := by
  cases j <;> first | rfl | exact absurd rfl h

theorem asOption_ofOption {o : Option α} (h : ∀ x ∈ o, read (write x) = .ok x ∧ write x ≠ null) :
    asOption read (ofOption write o) = .ok o := by
  cases o with
  | none => rfl
  | some x =>
    obtain ⟨restored, present⟩ := h x rfl
    rw [ofOption, asOption_of_ne_null present, restored, Decoded.ok_map]

/-! ### Records -/

@[simp]
theorem required_some (j : Json) : required read (some j) = read j := rfl

@[simp]
theorem orElse_some (default : α) (j : Json) : orElse default read (some j) = read j := rfl

@[simp]
theorem optional_some (j : Json) : Json.optional read (some j) = asOption read j := rfl

/-- A name leads to its member. -/
theorem filter_name {ms : List (String × Json)} (distinct : (ms.map Prod.fst).Nodup) {m : String × Json}
    (hm : m ∈ ms) : ms.filter (·.1 == m.1) = [m] := by
  induction ms with
  | nil => cases hm
  | cons k ms ih =>
    rw [List.map_cons, List.nodup_cons] at distinct
    rcases List.mem_cons.1 hm with rfl | hm
    · have others : ms.filter (·.1 == m.1) = [] := by
        rw [List.filter_eq_nil_iff]
        intro x hx same
        exact distinct.1 (List.mem_map.2 ⟨x, hx, beq_iff_eq.1 same⟩)
      rw [List.filter_cons_of_pos (by simp), others]
    · have other : k.1 ≠ m.1 := fun same => distinct.1 (List.mem_map.2 ⟨m, hm, same.symm⟩)
      rw [List.filter_cons_of_neg (by simpa using other), ih distinct.2 hm]

/-- The fields of a record that has just these. -/
@[simp]
theorem fields_object {names : List String} {ms : List (String × Json)} (named : ms.map Prod.fst = names)
    (distinct : names.Nodup) : fields names (object ms) = .ok (ms.map fun m => some m.2) := by
  subst named
  rw [fields]
  refine Decoded.mapM_map fun m hm => ?_
  rw [filter_name distinct hm]

/-! ### Choices -/

@[simp]
theorem asChoice_string (name : String) : asChoice (string name) = .ok (name, none) := rfl

@[simp]
theorem asChoice_object (name : String) (j : Json) : asChoice (object [(name, j)]) = .ok (name, some j) := rfl

@[simp]
theorem fieldsOfChoice_object {names : List String} {ms : List (String × Json)} (named : ms.map Prod.fst = names)
    (distinct : names.Nodup) : fieldsOfChoice names (some (object ms)) = .ok (ms.map fun m => some m.2) :=
  fields_object named distinct

end Json

end Dataflow
