import Csics.Dis.EntityState

/-!
# How far the decoders of the common records get

A record of `n` bytes is read where there are `n` of them, and where there are fewer its
decoder leaves less than eight (`Reads` and `Drains`). A failed read takes nothing, so the
reads behind it may still succeed.
-/

namespace Csics.Dis

open Base Serialization

variable (host : Endian)

theorem PDUHeader.drains : Drains (PDUHeader.deserializeDirect host) 12 := by
  refine (drains_read UInt8 host (by decide)).bind (by decide) fun protocolVersion =>
    (drains_read UInt8 host (by decide)).bind (by decide) fun exerciseId =>
    (drains_read UInt8 host (by decide)).bind (by decide) fun pduType =>
    (drains_read UInt8 host (by decide)).bind (by decide) fun protocolFamily =>
    (drains_read (Be UInt32) host (by decide)).bind (by decide) fun timestamp =>
    (drains_read (Be UInt16) host (by decide)).bind (by decide) fun pduLength =>
    (drains_read UInt8 host (by decide)).bind (by decide) fun status =>
    (drains_read UInt8 host (by decide)).bind (by decide) fun _ => drains_check fun h => ?_
  simp only [Bool.or_eq_false_iff, not_hasValue_eq_false] at h
  obtain ⟨⟨⟨⟨⟨⟨⟨_, rfl⟩, _, rfl⟩, _, rfl⟩, _, rfl⟩, _, rfl⟩, _, rfl⟩, _, rfl⟩ := h
  exact drains_pure _

theorem PDUHeader.reads : Reads (PDUHeader.deserializeDirect host) 12 := by
  refine (reads_read UInt8 host).bind (by decide) fun protocolVersion =>
    (reads_read UInt8 host).bind (by decide) fun exerciseId =>
    (reads_read UInt8 host).bind (by decide) fun pduType =>
    (reads_read UInt8 host).bind (by decide) fun protocolFamily =>
    (reads_read (Be UInt32) host).bind (by decide) fun timestamp =>
    (reads_read (Be UInt16) host).bind (by decide) fun pduLength =>
    (reads_read UInt8 host).bind (by decide) fun status =>
    (reads_read UInt8 host).bind (by decide) fun _ => reads_return _

theorem EntityID.drains : Drains (deserializeDirect host : Get (Expected EntityID)) 6 := by
  refine (drains_readWords UInt16 host (by decide)).bind (by decide) fun r => ?_
  split
  · exact drains_pure _
  · exact drains_pure _

theorem EntityID.reads : Reads (deserializeDirect host : Get (Expected EntityID)) 6 := by
  intro bs h
  obtain ⟨xs, hlen, hrun⟩ := run_readWords (α := UInt16) (n := 3) host h
  match xs, hlen with
  | [site, application, id], _ => exact ⟨⟨site, application, id⟩, Parser.run_bind_of_ok hrun⟩

theorem EntityType.drains : Drains (deserializeDirect host : Get (Expected EntityType)) 8 := by
  refine (drains_read UInt8 host (by decide)).bind (by decide) fun kind =>
    (drains_read UInt8 host (by decide)).bind (by decide) fun domain =>
    (drains_read (Be UInt16) host (by decide)).bind (by decide) fun country =>
    (drains_read UInt8 host (by decide)).bind (by decide) fun category =>
    (drains_read UInt8 host (by decide)).bind (by decide) fun subcategory =>
    (drains_read UInt8 host (by decide)).bind (by decide) fun specific =>
    (drains_read UInt8 host (by decide)).bind (by decide) fun extra => drains_check fun h => ?_
  simp only [Bool.or_eq_false_iff, not_hasValue_eq_false] at h
  obtain ⟨⟨⟨⟨⟨⟨⟨_, rfl⟩, _, rfl⟩, _, rfl⟩, _, rfl⟩, _, rfl⟩, _, rfl⟩, _, rfl⟩ := h
  exact drains_pure _

theorem EntityType.reads : Reads (deserializeDirect host : Get (Expected EntityType)) 8 := by
  refine (reads_read UInt8 host).bind (by decide) fun kind =>
    (reads_read UInt8 host).bind (by decide) fun domain =>
    (reads_read (Be UInt16) host).bind (by decide) fun country =>
    (reads_read UInt8 host).bind (by decide) fun category =>
    (reads_read UInt8 host).bind (by decide) fun subcategory =>
    (reads_read UInt8 host).bind (by decide) fun specific =>
    (reads_read UInt8 host).bind (by decide) fun extra => reads_return _

theorem Vec3.drains : Drains (deserializeDirect host : Get (Expected Vec3)) 12 := by
  refine (drains_readWords FloatBits host (by decide)).bind (by decide) fun r => ?_
  split
  · exact drains_pure _
  · exact drains_pure _

theorem Vec3.reads : Reads (deserializeDirect host : Get (Expected Vec3)) 12 := by
  intro bs h
  obtain ⟨xs, hlen, hrun⟩ := run_readWords (α := FloatBits) (n := 3) host h
  match xs, hlen with
  | [x, y, z], _ => exact ⟨⟨x, y, z⟩, Parser.run_bind_of_ok hrun⟩

theorem WorldCoordinates.drains :
    Drains (deserializeDirect host : Get (Expected WorldCoordinates)) 24 := by
  refine (drains_readWords DoubleBits host (by decide)).bind (by decide) fun r => ?_
  split
  · exact drains_pure _
  · exact drains_pure _

theorem WorldCoordinates.reads :
    Reads (deserializeDirect host : Get (Expected WorldCoordinates)) 24 := by
  intro bs h
  obtain ⟨xs, hlen, hrun⟩ := run_readWords (α := DoubleBits) (n := 3) host h
  match xs, hlen with
  | [x, y, z], _ => exact ⟨⟨x, y, z⟩, Parser.run_bind_of_ok hrun⟩

theorem EulerAngles.drains : Drains (deserializeDirect host : Get (Expected EulerAngles)) 12 := by
  refine (drains_readWords FloatBits host (by decide)).bind (by decide) fun r => ?_
  split
  · exact drains_pure _
  · exact drains_pure _

theorem EulerAngles.reads : Reads (deserializeDirect host : Get (Expected EulerAngles)) 12 := by
  intro bs h
  obtain ⟨xs, hlen, hrun⟩ := run_readWords (α := FloatBits) (n := 3) host h
  match xs, hlen with
  | [psi, theta, phi], _ => exact ⟨⟨psi, theta, phi⟩, Parser.run_bind_of_ok hrun⟩

theorem DISQuat.drains : Drains (deserializeDirect host : Get (Expected DISQuat)) 14 := by
  refine (drains_read (Be UInt16) host (by decide)).bind (by decide) fun u0 =>
    (drains_read (Be FloatBits) host (by decide)).bind (by decide) fun x =>
    (drains_read (Be FloatBits) host (by decide)).bind (by decide) fun y =>
    (drains_read (Be FloatBits) host (by decide)).bind (by decide) fun z =>
    drains_check fun h => ?_
  simp only [Bool.or_eq_false_iff, not_hasValue_eq_false] at h
  obtain ⟨⟨⟨⟨_, rfl⟩, _, rfl⟩, _, rfl⟩, _, rfl⟩ := h
  exact drains_pure _

theorem DISQuat.reads : Reads (deserializeDirect host : Get (Expected DISQuat)) 14 := by
  refine (reads_read (Be UInt16) host).bind (by decide) fun u0 =>
    (reads_read (Be FloatBits) host).bind (by decide) fun x =>
    (reads_read (Be FloatBits) host).bind (by decide) fun y =>
    (reads_read (Be FloatBits) host).bind (by decide) fun z => reads_return _

/-! ## Dead-reckoning parameters -/

namespace DeadReckoningParameters

/-- How many bytes the decoder takes for the union. -/
def unionSize (paramsType : UInt8) : Nat := if paramsType = 1 ∨ paramsType = 2 then 14 else 8

/-- The decoder behind `params_type`. -/
def deserializeRest (params : DeadReckoningParameters) :
    Get (Expected DeadReckoningParameters) := do
  match ← deserializeUnion host params with
  | .error _ => return unexpect
  | .ok params =>
    let linearAcceleration ← deserializeDirect host
    let angularVelocity ← deserializeDirect host
    if !linearAcceleration.hasValue || !angularVelocity.hasValue then
      return unexpect
    return .ok { params with
      linearAcceleration := ← deref linearAcceleration
      angularVelocity := ← deref angularVelocity }

theorem drains_deserializeUnion (params : DeadReckoningParameters) :
    Drains (deserializeUnion host params) (unionSize params.paramsType) := by
  unfold deserializeUnion unionSize
  by_cases h1 : params.paramsType = 1
  · rw [if_pos h1, if_pos (Or.inl h1)]
    refine (drains_read UInt16 host (by decide)).bind (by decide) fun _ =>
      (EulerAngles.drains host).bind (by decide) fun localAngles => drains_check fun h => ?_
    obtain ⟨_, rfl⟩ := not_hasValue_eq_false.mp h
    exact drains_pure _
  · rw [if_neg h1]
    by_cases h2 : params.paramsType = 2
    · rw [if_pos h2, if_pos (Or.inr h2)]
      refine (DISQuat.drains host).bind (by decide) fun quat => drains_check fun h => ?_
      obtain ⟨_, rfl⟩ := not_hasValue_eq_false.mp h
      exact drains_pure _
    · rw [if_neg h2, if_neg (by simp [h1, h2])]
      exact (drains_read UInt64 host (by decide)).bind (by decide) fun _ => drains_pure _

theorem reads_deserializeUnion (params : DeadReckoningParameters) :
    Reads (deserializeUnion host params) (unionSize params.paramsType) := by
  unfold deserializeUnion unionSize
  by_cases h1 : params.paramsType = 1
  · rw [if_pos h1, if_pos (Or.inl h1)]
    exact (reads_read UInt16 host).bind (by decide) fun _ =>
      (EulerAngles.reads host).bind (by decide) fun localAngles => reads_return _
  · rw [if_neg h1]
    by_cases h2 : params.paramsType = 2
    · rw [if_pos h2, if_pos (Or.inr h2)]
      exact (DISQuat.reads host).bind (by decide) fun quat => reads_return _
    · rw [if_neg h2, if_neg (by simp [h1, h2])]
      exact (reads_read UInt64 host).bind (by decide) fun _ => reads_return _

theorem drains_deserializeRest (params : DeadReckoningParameters) :
    Drains (deserializeRest host params) (unionSize params.paramsType + 24) := by
  apply (drains_deserializeUnion host params).bind_of_reads (reads_deserializeUnion host params)
    (Nat.le_add_right _ _)
  · intro params
    rw [Nat.add_sub_cancel_left]
    refine (Vec3.drains host).bind (by decide) fun linearAcceleration =>
      (Vec3.drains host).bind (by decide) fun angularVelocity => drains_check fun h => ?_
    simp only [Bool.or_eq_false_iff, not_hasValue_eq_false] at h
    obtain ⟨⟨_, rfl⟩, _, rfl⟩ := h
    exact drains_pure _
  · intro e
    exact drains_pure _

theorem reads_deserializeRest (params : DeadReckoningParameters) :
    Reads (deserializeRest host params) (unionSize params.paramsType + 24) := by
  apply (reads_deserializeUnion host params).bind (Nat.le_add_right _ _)
  intro params
  rw [Nat.add_sub_cancel_left]
  exact (Vec3.reads host).bind (by decide) fun linearAcceleration =>
    (Vec3.reads host).bind (by decide) fun angularVelocity => reads_return _

theorem run_cons_cons (algorithm paramsType : UInt8) (bs : List UInt8) :
    (deserializeDirect host : Get (Expected DeadReckoningParameters)).run
        (algorithm :: paramsType :: bs) =
      (deserializeRest host { init with algorithm := algorithm, paramsType := paramsType }).run
        bs := by
  have h1 := run_read_cons host algorithm (paramsType :: bs)
  have h2 := run_read_cons host paramsType bs
  exact (Parser.run_bind_of_ok h1).trans (Parser.run_bind_of_ok h2)

theorem unionSize_le (paramsType : UInt8) : unionSize paramsType ≤ 14 := by
  unfold unionSize
  split <;> omega

theorem unionSize_ge (paramsType : UInt8) : 8 ≤ unionSize paramsType := by
  unfold unionSize
  split <;> omega

theorem drains : Drains (deserializeDirect host : Get (Expected DeadReckoningParameters)) 34 := by
  intro bs
  match bs with
  | [] => exact ⟨_, _, rfl, by simp, by simp⟩
  | [_] => exact ⟨_, _, rfl, by simp, by simp⟩
  | algorithm :: paramsType :: bs =>
    have hsize := unionSize_ge paramsType
    obtain ⟨r, rest, hrun, hle, htaken⟩ := drains_deserializeRest host
      { init with algorithm := algorithm, paramsType := paramsType } bs
    refine ⟨r, rest, (run_cons_cons host algorithm paramsType bs).trans hrun, ?_, ?_⟩
    · simp only [List.length_cons]
      omega
    · simp only [List.length_cons]
      simp only at htaken
      omega

end DeadReckoningParameters

end Csics.Dis
