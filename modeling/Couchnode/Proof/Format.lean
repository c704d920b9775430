import Couchnode.Proof.Buffers
import Couchnode.V8.Runtime

/-!
# Values survive storage

`encode` finishes exactly when a value has an encoding in the format (`encode_finishes`,
`encode_encoding`), so what it leaves in memory can be studied as the pair of flags and bytes
`encoding` gives. `decode` of that pair is the value again for every storable value
(`decode_encoding`). The one storable value without an encoding is the empty `Buffer`: there is
no buffer of no bytes to copy it into, and `encodeNodeBuffer` takes that for lack of memory.
-/

set_option autoImplicit false

namespace Couchnode

/-- The values JSON can write down. -/
inductive JsonValue : Value → Prop where
  | null : JsonValue .null
  | bool (b : Bool) : JsonValue (.bool b)
  | number (q : Rat) : JsonValue (.number (.fin q))
  | string (s : String) : JsonValue (.string s)
  | array {vs : List Value} (h : ∀ v ∈ vs, JsonValue v) : JsonValue (.array vs)
  | object {ps : Props} (hn : (Assoc.keys ps).Nodup) (h : ∀ p ∈ ps, JsonValue p.2) :
      JsonValue (.object ps)

/-- The values an application may store. -/
inductive Storable : Value → Prop where
  | string (s : String) : Storable (.string s)
  | buffer (bs : List UInt8) : Storable (.buffer bs)
  | number (q : Rat) : Storable (.number (.fin q))
  | array {vs : List Value} (h : JsonValue (.array vs)) : Storable (.array vs)
  | object {ps : Props} (h : JsonValue (.object ps)) : Storable (.object ps)

namespace Proof

open ValueFormat Prog

variable [Runtime]

/-! ## `encode` finishes -/

section Encode

variable {s s' : PState} {v : Value} {spec : Spec} {flags : Nat} {bs : List UInt8}

omit [Runtime] in
/-- A text that is not empty can be stored. -/
theorem store_finishes (ok : BufOk s.heap s.bufs) (hpos : 0 < bs.length) :
    ∃ p s₁ s₂, PState.getBuffer bs.length s = .done p s₁ ∧ p ≠ .null ∧
      PState.writeBytes p bs s₁ = .done () s₂ := by
  obtain ⟨blk, off, h', b', hget, hok, _, hres, _⟩ := getBuffer_spec ok hpos
  obtain ⟨h'', hwrite, _⟩ := writeBytes_spec hok hres (Nat.le_refl _)
  refine ⟨.inBlock blk off, { s with heap := h', bufs := b' }, { s with heap := h'', bufs := b' },
    ?_, by simp, ?_⟩
  · simp only [PState.getBuffer, hget]
  · simp only [PState.writeBytes, hwrite]

theorem encodeUtf8_finishes (ok : BufOk s.heap s.bufs) (h : encodingUtf8 v = some bs) :
    ∃ e s', encodeUtf8 v s = .done e s' := by
  cases v with
  | string t =>
    cases h
    unfold encodeUtf8
    by_cases hlen : utf8Length t = 0
    · exact ⟨_, _, by simp only [if_pos hlen]; rfl⟩
    · obtain ⟨p, s₁, s₂, hg, hp, hw⟩ := store_finishes ok (utf8_length_pos hlen)
      have hg : PState.getBuffer (utf8Length t) s = .done p s₁ := hg
      refine ⟨{ flags := Spec.utf8.flags, ptr := p, n := utf8Length t }, s₂, ?_⟩
      simp only [if_neg hlen]
      rw [bind_of_done hg, if_neg hp, bind_of_done hw]
      rfl
  | _ => cases h

theorem encodeNodeBuffer_finishes (ok : BufOk s.heap s.bufs) (h : bs ≠ []) :
    ∃ e s', encodeNodeBuffer bs s = .done e s' := by
  obtain ⟨p, s₁, s₂, hg, hp, hw⟩ := store_finishes ok (List.length_pos_iff.mpr h)
  refine ⟨{ flags := Spec.raw.flags, ptr := p, n := bs.length }, s₂, ?_⟩
  unfold encodeNodeBuffer
  rw [bind_of_done hg, if_neg hp, bind_of_done hw]
  rfl

theorem encodeAs_finishes (ok : BufOk s.heap s.bufs) (h : encodingAs v spec = some (flags, bs)) :
    ∃ e s', encodeAs v spec s = .done e s' := by
  cases spec with
  | utf8 =>
    obtain ⟨bs, hbs, _⟩ := Option.map_eq_some_iff.mp h
    exact encodeUtf8_finishes ok hbs
  | raw =>
    cases v with
    | buffer cs =>
      have hne : cs ≠ [] := by
        rintro rfl
        cases h
      exact encodeNodeBuffer_finishes ok hne
    | _ =>
      simp only [encodingAs, Option.map_eq_some_iff] at h
      obtain ⟨bs, hbs, _⟩ := h
      obtain ⟨e, s₁, he⟩ := encodeUtf8_finishes ok hbs
      exact ⟨_, s₁, bind_of_done he⟩
  | json =>
    unfold encodingAs at h
    unfold encodeAs
    cases hret : Runtime.jsonStringify v with
    | error ex =>
      rw [hret] at h
      cases h
    | ok ret =>
      rw [hret] at h
      obtain ⟨bs, hbs, _⟩ := Option.map_eq_some_iff.mp h
      obtain ⟨e, s₁, he⟩ := encodeUtf8_finishes ok hbs
      exact ⟨_, s₁, bind_of_done he⟩
  | invalid | utf16 | auto => cases h

/-- **A value that has an encoding is encoded.** -/
theorem encode_finishes (ok : BufOk s.heap s.bufs) (h : encoding v spec = some (flags, bs)) :
    ∃ e s', encode (some v) spec s = .done e s' := by
  have hspec : spec ≠ .invalid := by
    rintro rfl
    cases h
  obtain ⟨e, s', he⟩ := encodeAs_finishes ok h
  refine ⟨e, s', ?_⟩
  unfold encode
  rw [if_neg hspec]
  exact he

/-- What libcouchbase reads of an encoded value. -/
theorem encode_reads (ok : BufOk s.heap s.bufs) {e : Encoded}
    (h : encode (some v) spec s = .done e s') :
    ∃ bs, encoding v spec = some (e.flags, bs) ∧ s'.heap.readBytes e.ptr e.n = some bs := by
  obtain ⟨w, bs, hw, hbs, _, hspan⟩ := encode_done ok h
  cases hw
  refine ⟨bs, hbs, ?_⟩
  rcases hspan with ⟨_, hn⟩ | ⟨cs, hcs, _, hlen, hst⟩
  · cases hn
  · cases hcs
    have hlen : e.n = bs.length := hlen
    rw [hlen]
    exact readBytes_stored hst

end Encode

/-! ## Decoding what was encoded -/

section Decode

variable {v : Value}

/-- The automatic format of a storable value, with its flags and bytes. -/
theorem storable_encoding (hv : Storable v) (hjson : JsonValue v → JsonInverse v) :
    (∃ t, v = .string t ∧ encoding v .auto = some (Spec.utf8.flags, utf8 t)) ∨
    (∃ bs, v = .buffer bs ∧
      encoding v .auto = if bs = [] then none else some (Spec.raw.flags, bs)) ∨
    ∃ t, encoding v .auto = some (Spec.json.flags, utf8 t) ∧ Runtime.jsonParse t = .ok v := by
  have json (hj : JsonValue v) (hauto : getAutoSpec v = .json) :
      ∃ t, encoding v .auto = some (Spec.json.flags, utf8 t) ∧ Runtime.jsonParse t = .ok v := by
    obtain ⟨t, hs, hp⟩ := hjson hj
    refine ⟨t, ?_, hp⟩
    simp only [encoding, if_true, hauto, encodingAs, hs, encodingUtf8, Option.map_some]
  cases hv with
  | string t => exact .inl ⟨t, rfl, rfl⟩
  | buffer bs => exact .inr (.inl ⟨bs, rfl, rfl⟩)
  | number q => exact .inr (.inr (json (.number q) rfl))
  | array h => exact .inr (.inr (json h rfl))
  | object h => exact .inr (.inr (json h rfl))

/-- Under the flags of JSON, a text that parses is what it parses to. -/
theorem decode_parsed {bs : List UInt8} (h : Runtime.jsonParse (Runtime.stringNew bs) = .ok v) :
    decode bs Spec.json.flags = v := by
  unfold decode
  rw [if_neg (by decide), if_neg (by decide), if_pos rfl, h]

/-- **Decoding an encoding gives the value back**; only the empty `Buffer` has none. -/
theorem decode_encoding (hnew : StringNewInverse) (hv : Storable v)
    (hjson : JsonValue v → JsonInverse v) :
    (∃ flags bs, encoding v .auto = some (flags, bs) ∧ decode bs flags = v) ↔ v ≠ .buffer [] := by
  rcases storable_encoding hv hjson with ⟨t, rfl, he⟩ | ⟨bs, rfl, he⟩ | ⟨t, he, hp⟩
  · refine ⟨fun _ => by simp, fun _ => ⟨_, _, he, ?_⟩⟩
    show Value.string (Runtime.stringNew (utf8 t)) = _
    rw [hnew t]
  · rw [he]
    by_cases hbs : bs = []
    · rw [if_pos hbs, hbs]
      exact ⟨fun ⟨_, _, h, _⟩ => (by cases h), fun h => absurd rfl h⟩
    · rw [if_neg hbs]
      refine ⟨fun _ h => hbs (Value.buffer.inj h), fun _ => ⟨_, _, rfl, rfl⟩⟩
  · constructor
    · rintro _ rfl
      cases he
    · intro _
      refine ⟨_, _, he, decode_parsed ?_⟩
      rw [hnew t, hp]

/-- **When a value survives storage.** Of the strings, buffers, finite numbers, and arrays and
    objects of JSON values, every one but the empty `Buffer` is encoded, and the bytes and
    flags libcouchbase is given decode to it. -/
theorem encode_decode_iff (hnew : StringNewInverse) (hv : Storable v)
    (hjson : JsonValue v → JsonInverse v) {s : PState} (ok : BufOk s.heap s.bufs) :
    (∃ e s' bs, encode (some v) .auto s = .done e s' ∧
      s'.heap.readBytes e.ptr e.n = some bs ∧ decode bs e.flags = v) ↔ v ≠ .buffer [] := by
  rw [← decode_encoding hnew hv hjson]
  constructor
  · rintro ⟨e, s', bs, he, hread, hdec⟩
    obtain ⟨bs', henc, hread'⟩ := encode_reads ok he
    rw [hread] at hread'
    cases hread'
    exact ⟨_, bs, henc, hdec⟩
  · rintro ⟨flags, bs, henc, hdec⟩
    obtain ⟨e, s', he⟩ := encode_finishes ok henc
    obtain ⟨bs', henc', hread⟩ := encode_reads ok he
    rw [henc] at henc'
    cases henc'
    exact ⟨e, s', bs, he, hread, hdec⟩

end Decode

end Proof

section Example

open scoped SmallRuntime

/-- The number 5, through JSON. -/
theorem Proof.encode_decode_iff_five :
    ∃ e s' bs, ValueFormat.encode (some (.number (.fin 5))) .auto (Command.start []) = .done e s' ∧
      s'.heap.readBytes e.ptr e.n = some bs ∧
      ValueFormat.decode bs e.flags = .number (.fin 5) := by
  refine (Proof.encode_decode_iff SmallRuntime.stringNewInverse (.number 5) ?_
    (Proof.BufOk.empty _)).mpr ?_
  · intro _
    exact SmallRuntime.five
  · simp

/-- An empty `Buffer` is refused. -/
theorem Proof.encode_empty_buffer : Storable (.buffer []) ∧
    ∃ s', ValueFormat.encode (some (.buffer [])) .auto (Command.start []) = .refused s' ∧
      s'.recorded = [.eMemory ""] :=
  ⟨.buffer [], _, rfl, rfl⟩

end Example

end Couchnode
