import Shipstream.Protobuf.Message

/-! Changing a schema while its bytes stay in circulation. `Extends` compares two
schemas on the smaller one's fields; deletion and addition of fields are its two directions. -/
namespace Shipstream.Protobuf

/-- Every field of `T` is a field of `S` with the same number and type. -/
def Schema.Extends (S T : Schema) : Prop :=
  ∀ n ∈ T.declared.list, n ∈ S.declared.list ∧ S.type n = T.type n

theorem Schema.Extends.refl (S : Schema) : S.Extends S := fun _ hn => ⟨hn, rfl⟩

/-- Two folds in lockstep: what the left one accepts the right one accepts. -/
theorem foldlM_simulation {σ τ α : Type} {f : σ → α → Option σ} {g : τ → α → Option τ}
    (R : σ → τ → Prop) (hstep : ∀ s t a s', R s t → f s a = some s' → ∃ t', g t a = some t' ∧ R s' t')
    {as : List α} {s s' : σ} {t : τ} (hR : R s t) (h : as.foldlM f s = some s') :
    ∃ t', as.foldlM g t = some t' ∧ R s' t' := by
  induction as generalizing s t with
  | nil =>
    cases h
    exact ⟨t, rfl, hR⟩
  | cons a as ih =>
    rw [List.foldlM_cons] at h
    obtain ⟨mid, hm, hrest⟩ := Option.bind_eq_some_iff.mp h
    obtain ⟨mid', hm', hR'⟩ := hstep s t a mid hR hm
    obtain ⟨t', ht', hR''⟩ := ih hR' hrest
    exact ⟨t', by rw [List.foldlM_cons, hm']; exact ht', hR''⟩

namespace Message
variable (m : Message) (n k : Nat) (v : Value)

@[simp] theorem set_self : (m.set n v).fields n = v.stored := by simp [set]
@[simp] theorem set_of_ne (h : k ≠ n) : (m.set n v).fields k = m.fields k := by simp [set, h]

/-- Agreement on a set of fields, whatever else the two messages hold. -/
def AgreeOn (ns : List Nat) (m m' : Message) : Prop := ∀ n ∈ ns, m.fields n = m'.fields n

end Message

/-- A record touches no field but its own. -/
theorem offer_frame {declared : List Nat} {absorb : Nat → Option Value → Payload → Absorbed}
    {m m' : Message} {r : Record} (h : offer declared absorb m r = some m') {n : Nat}
    (hn : n ≠ r.number) : m'.fields n = m.fields n := by
  unfold offer at h
  split at h
  · split at h
    · cases h
    · cases h
      rfl
    · cases h
      exact m.set_of_ne _ _ _ hn
  · cases h
    rfl

/-- One record keeps the larger and the smaller schema in agreement: a shared
field absorbs the same payload into the same value, and any other record the
smaller schema merely keeps. -/
theorem Schema.Extends.step {S T : Schema} (h : S.Extends T) {m m₁ m' : Message} {r : Record}
    (hA : Message.AgreeOn T.declared.list m m') (hs : S.step m r = some m₁) :
    ∃ m₁', T.step m' r = some m₁' ∧ Message.AgreeOn T.declared.list m₁ m₁' := by
  by_cases hr : r.number ∈ T.declared.list
  · obtain ⟨hS, htype⟩ := h r.number hr
    simp only [Schema.step, offer, if_pos hS, if_pos hr, htype, hA r.number hr] at hs ⊢
    split at hs
    · cases hs
    · cases hs
      exact ⟨_, rfl, hA⟩
    · cases hs
      refine ⟨_, rfl, fun n hn => ?_⟩
      by_cases hne : n = r.number
      · simp [hne]
      · simpa [hne] using hA n hn
  · refine ⟨m'.keepUnknown r, by simp [Schema.step, offer, hr], fun n hn => ?_⟩
    have hne : n ≠ r.number := fun he => hr (he ▸ hn)
    rw [offer_frame hs hne]
    exact hA n hn

/-- Deleting fields is safe for readers: every body the larger schema decodes,
the smaller one decodes to the same shared fields, whatever the deleted fields carry. -/
theorem Schema.Extends.decode {S T : Schema} (h : S.Extends T) {b : Bytes} {m : Message}
    (hd : S.decode b = some m) :
    ∃ m', T.decode b = some m' ∧ Message.AgreeOn T.declared.list m m' := by
  obtain ⟨rs, hrs, hfold⟩ := Option.bind_eq_some_iff.mp hd
  have hstep : ∀ (s t : Message) (r : Record) (s' : Message), Message.AgreeOn T.declared.list s t →
      S.step s r = some s' → ∃ t', T.step t r = some t' ∧ Message.AgreeOn T.declared.list s' t' :=
    fun _ _ _ _ hA hs => h.step hA hs
  obtain ⟨m', hm', hA⟩ := foldlM_simulation _ hstep (fun _ _ => rfl) hfold
  exact ⟨m', by rw [Schema.decode, hrs]; exact hm', hA⟩

private theorem fieldRecord_number {payload : Nat → Value → Option Payload} {fields : Nat → Option Value}
    {n : Nat} {r : Record} (h : fieldRecord payload fields n = some r) : r.number = n := by
  obtain ⟨v, _, hr⟩ := Option.bind_eq_some_iff.mp h
  obtain ⟨p, _, rfl⟩ := Option.map_eq_some_iff.mp hr
  rfl

/-- A value that its own type reads back from its payload. -/
def ReadsBack (t : FieldType) (v : Value) : Prop :=
  ∃ p, payload t v = some p ∧ (p.Fits → absorb t none p = .value v)

/-- Offering the written records of `T` to the larger `S`, on fields not yet
present, restores exactly those fields. Induction over the declared numbers still to come. -/
theorem fold_written {S T : Schema} (h : S.Extends T) {fields : Nat → Option Value}
    (hf : ∀ n v, fields n = some v → v.isDefault = false ∧ ReadsBack (T.type n) v)
    {ns : List Nat} (hns : ∀ n ∈ ns, n ∈ T.declared.list) (hnd : ns.Nodup) {m : Message}
    (hm : ∀ n ∈ ns, m.fields n = none)
    (hfit : ∀ r ∈ ns.filterMap (fieldRecord (fun n => payload (T.type n)) fields), r.payload.Fits) :
    ∃ m', (ns.filterMap (fieldRecord (fun n => payload (T.type n)) fields)).foldlM S.step m = some m' ∧
      m'.unknown = m.unknown ∧ ∀ n, m'.fields n = if n ∈ ns then fields n else m.fields n := by
  induction ns generalizing m with
  | nil => exact ⟨m, rfl, rfl, by simp⟩
  | cons k ns ih =>
    have hk : k ∉ ns := (List.nodup_cons.mp hnd).1
    have hmem : ∀ n ∈ ns, n ∈ T.declared.list := fun n hn => hns n (by simp [hn])
    cases hfk : fields k with
    | none =>
      have hnone : fieldRecord (fun n => payload (T.type n)) fields k = none := by simp [fieldRecord, hfk]
      rw [List.filterMap_cons_none hnone] at hfit ⊢
      obtain ⟨m', hm', hu, hfields⟩ := ih hmem (List.nodup_cons.mp hnd).2
        (fun n hn => hm n (by simp [hn])) hfit
      refine ⟨m', hm', hu, fun n => ?_⟩
      by_cases hne : n = k
      · subst hne
        rw [hfields, if_neg hk, if_pos (by simp), hm n (by simp), hfk]
      · simpa [hne] using hfields n
    | some v =>
      obtain ⟨hdef, p, hp, hread⟩ := hf k v hfk
      have hsome : fieldRecord (fun n => payload (T.type n)) fields k = some ⟨k, p⟩ := by
        simp [fieldRecord, hfk, hp]
      rw [List.filterMap_cons_some hsome] at hfit ⊢
      have hS := h k (hns k (by simp))
      have hstep : S.step m ⟨k, p⟩ = some (m.set k v) := by
        simp only [Schema.step, offer, if_pos hS.1, hS.2, hm k (by simp)]
        rw [hread (hfit ⟨k, p⟩ (by simp))]
      have hfresh : ∀ n ∈ ns, (m.set k v).fields n = none := fun n hn => by
        have hne : n ≠ k := fun he => hk (he ▸ hn)
        rw [m.set_of_ne _ _ _ hne]
        exact hm n (by simp [hn])
      obtain ⟨m', hm', hu, hfields⟩ := ih hmem (List.nodup_cons.mp hnd).2 hfresh
        (fun r hr => hfit r (by simp [hr]))
      refine ⟨m', by rw [List.foldlM_cons, hstep]; exact hm', hu, fun n => ?_⟩
      by_cases hne : n = k
      · subst hne
        rw [hfields, if_neg hk, if_pos (by simp), m.set_self, hfk]
        simp [Value.stored, hdef]
      · rw [hfields]
        simp [hne]

private theorem flatMap_writeRecord_length {r : Record} {rs : List Record} (h : r ∈ rs) :
    (writeRecord r).length ≤ (rs.flatMap writeRecord).length := by
  rw [List.length_flatMap]
  exact List.le_sum_of_mem (List.mem_map.mpr ⟨r, h, rfl⟩)

/-- In a body short enough for a length prefix every payload is. -/
theorem fits_of_body {rs : List Record} (h : (rs.flatMap writeRecord).length < 2 ^ 64) :
    ∀ r ∈ rs, r.payload.Fits := by
  rintro ⟨n, p⟩ hr
  cases p with
  | bytes b => exact ((writeRecord_payload_length n b).trans (flatMap_writeRecord_length hr)).trans_lt h
  | varint _ | fixed64 _ | fixed32 _ => trivial

/-- Written by `T`, read by the larger `S`: the written fields come back and no others. -/
theorem decode_written {S T : Schema} (h : S.Extends T) {fields : Nat → Option Value}
    (hf : ∀ n v, fields n = some v → n ∈ T.declared.list ∧ v.isDefault = false ∧ ReadsBack (T.type n) v)
    (hlen : (T.encode ⟨fields, []⟩).length < 2 ^ 64) :
    S.decode (T.encode ⟨fields, []⟩) = some ⟨fields, []⟩ := by
  set rs := T.declared.list.filterMap (fieldRecord (fun n => payload (T.type n)) fields) with hrs
  have henc : T.encode ⟨fields, []⟩ = rs.flatMap writeRecord := by
    simp [Schema.encode, Schema.records, bodyRecords, hrs]
  rw [henc] at hlen ⊢
  have hfit := fits_of_body hlen
  have hread : readRecords (rs.flatMap writeRecord) = some rs := by
    refine readRecords_write rs fun r hr => ⟨?_, hfit r hr⟩
    obtain ⟨n, hn, hnr⟩ := List.mem_filterMap.mp hr
    rw [fieldRecord_number hnr]
    exact T.declared.valid n hn
  obtain ⟨m, hm, hu, hfields⟩ := fold_written h (fun n v hv => (hf n v hv).2) (fun _ hn => hn)
    T.declared.nodup (m := Message.empty) (fun _ _ => rfl) hfit
  rw [Schema.decode, hread, Option.bind_some, hm]
  have hall : m.fields = fields := by
    funext n
    rw [hfields]
    split
    · rfl
    · next hn =>
      cases hfn : fields n with
      | none => rfl
      | some v => exact absurd (hf n v hfn).1 hn
  cases m
  simp_all [Message.empty]

/-- A sub-message not yet present is decoded by the schema of its own fields. -/
theorem absorb_message (declared : FieldNumbers) (type : Nat → FieldType) (b : Bytes) :
    absorb (.message declared type) none (.bytes b) =
      match (Schema.mk declared type).decode b with
      | some m => .value (.message m.fields m.unknown)
      | none => .malformed := by
  rw [absorb]
  rfl

/-- Sign extension to the 64 bits of a varint loses nothing. -/
theorem truncate_signExtend (n : BitVec 32) : (n.signExtend 64).truncate 32 = n := by
  ext i hi
  simp only [BitVec.truncate_eq_setWidth, BitVec.getElem_setWidth, BitVec.getLsbD_signExtend]
  rw [if_pos hi, BitVec.getLsbD_eq_getElem hi]
  simp only [Bool.and_eq_right_iff_imp, decide_eq_true_eq]
  omega

/-- Every well-typed value is read back from its payload. Induction over the type;
a sub-message is the schema of its own fields. -/
theorem readsBack (t : FieldType) (v : Value) (h : HasType t v) : ReadsBack t v := by
  induction t generalizing v with
  | string =>
    cases v with
    | string s => exact ⟨_, rfl, fun _ => by simp [absorb]⟩
    | double _ | enum _ | int32 _ | int64 _ | message _ _ => exact h.elim
  | double =>
    cases v with
    | double bits => exact ⟨_, rfl, fun _ => rfl⟩
    | string _ | enum _ | int32 _ | int64 _ | message _ _ => exact h.elim
  | enum =>
    cases v with
    | enum n => exact ⟨_, rfl, fun _ => by rw [absorb, truncate_signExtend]⟩
    | string _ | double _ | int32 _ | int64 _ | message _ _ => exact h.elim
  | int32 =>
    cases v with
    | int32 n => exact ⟨_, rfl, fun _ => by rw [absorb, truncate_signExtend]⟩
    | string _ | double _ | enum _ | int64 _ | message _ _ => exact h.elim
  | int64 =>
    cases v with
    | int64 n => exact ⟨_, rfl, fun _ => rfl⟩
    | string _ | double _ | enum _ | int32 _ | message _ _ => exact h.elim
  | message declared type ih =>
    cases v with
    | message fields unknown =>
      obtain ⟨hu, hfields⟩ := h
      subst hu
      refine ⟨_, rfl, fun hfit => ?_⟩
      have hwritten : ∀ n v, fields n = some v →
          n ∈ declared.list ∧ v.isDefault = false ∧ ReadsBack (type n) v := fun n v hv =>
        ⟨(hfields n v hv).1, (hfields n v hv).2.1, ih n v (hfields n v hv).2.2⟩
      have hdec := decode_written (.refl ⟨declared, type⟩) hwritten hfit
      simp only [Schema.encode, Schema.records] at hdec
      rw [absorb_message, hdec]
    | string _ | double _ | enum _ | int32 _ | int64 _ => exact h.elim

/-- Adding fields is safe for readers: what the smaller schema writes the larger
one reads unchanged, with every added field absent. -/
theorem Schema.Extends.decode_encode {S T : Schema} (h : S.Extends T) {m : Message} (hm : T.Typed m)
    (hlen : (T.encode m).length < 2 ^ 64) : S.decode (T.encode m) = some m := by
  obtain ⟨fields, unknown⟩ := m
  obtain ⟨hu, hfields⟩ := hm
  cases hu
  exact decode_written h (fun n v hv => ⟨(hfields n v hv).1, (hfields n v hv).2.1,
    readsBack _ v (hfields n v hv).2.2⟩) hlen

end Shipstream.Protobuf
