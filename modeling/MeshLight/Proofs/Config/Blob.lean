import MeshLight.Config.Blob

/-!
# MeshLight.Proofs.Config.Blob

A stored configuration reads back as what it was, whatever follows it, and no shorter start of it
can be read at all. Both are said of one reader at a time (`Reads`): a reader takes the bytes that
its value was written as, all of them and no others. Readers in sequence do so if each of them does
(`Reads.bind`), which is all that the order of the fields has to know.
-/

namespace MeshLight

/-! ## varints -/

namespace Varint

/-- No shorter start of a number is a number. -/
theorem decodeWithin?_of_cut {places n : Nat} {part : Bytes}
    (hpart : part <+: encodeWithin places n) (hne : part ≠ encodeWithin places n) :
    decodeWithin? places part = none := by
  induction places generalizing n part with
  | zero => rfl
  | succ places ih =>
      cases part with
      | nil => rfl
      | cons b rest =>
          unfold encodeWithin at hpart hne
          split at hpart
          · simp_all [List.cons_prefix_cons]
          · next hn =>
              obtain ⟨rfl, hrest⟩ := List.cons_prefix_cons.1 hpart
              have hrest' : rest ≠ encodeWithin places (n / 128) := by simpa [hn] using hne
              have hb : ¬UInt8.ofNat (n % 128 + 128) < 128 := by
                simp only [UInt8.lt_iff_toNat_lt, UInt8.toNat_ofNat', UInt8.toNat_ofNat]
                omega
              simp only [decodeWithin?, if_neg hb, ih hrest hrest']
              rfl

theorem decode?_of_cut {bits n : Nat} {part : Bytes} (hpart : part <+: encode bits n)
    (hne : part ≠ encode bits n) : decode? bits part = none := by
  simp [decode?, decodeWithin?_of_cut hpart hne]

/-- A small number takes one byte. -/
theorem length_encode_of_lt {bits n : Nat} (hbits : 0 < bits) (h : n < 128) :
    (encode bits n).length = 1 := by
  obtain ⟨places, hplaces⟩ : ∃ places, maxBytes bits = places + 1 :=
    Nat.exists_eq_add_one.2 (by unfold maxBytes; omega)
  simp [encode, hplaces, encodeWithin, h]

end Varint

namespace Config

/-! ## readers -/

/-- The reader takes these bytes for this value, whatever follows them, and takes no shorter start
of them for any. -/
structure Reads (get : Get α) (bytes : Bytes) (a : α) : Prop where
  whole : ∀ rest, get (bytes ++ rest) = some (a, rest)
  cut : ∀ part, part <+: bytes → part ≠ bytes → get part = none

theorem Reads.pure (a : α) : Reads (Pure.pure a) [] a where
  whole _ := rfl
  cut _ hpart hne := absurd (List.prefix_nil.1 hpart) hne

/-- A part of two pieces is a part of the first, or all of the first and a part of the second. -/
theorem prefix_append_cases {part first second : Bytes} (h : part <+: first ++ second)
    (hne : part ≠ first ++ second) :
    part <+: first ∧ part ≠ first ∨
      ∃ rest, part = first ++ rest ∧ rest <+: second ∧ rest ≠ second := by
  have hfirst : first <+: first ++ second := List.prefix_append first second
  obtain hpart | ⟨rest, rfl⟩ := List.prefix_or_prefix_of_prefix h hfirst
  · by_cases heq : part = first
    · subst heq
      exact .inr ⟨[], by simp, List.nil_prefix, fun hnil => hne (by simp [← hnil])⟩
    · exact .inl ⟨hpart, heq⟩
  · refine .inr ⟨rest, rfl, (List.prefix_append_right_inj first).1 h, ?_⟩
    intro heq
    exact hne (by rw [heq])

/-- Two readers in sequence. -/
theorem Reads.bind {get : Get α} {next : α → Get β} {first second : Bytes} {a : α} {b : β}
    (h : Reads get first a) (hnext : Reads (next a) second b) :
    Reads (get >>= next) (first ++ second) b where
  whole rest := by
    have hfirst := h.whole (second ++ rest)
    simp [Bind.bind, StateT.bind, hfirst, hnext.whole rest]
  cut part hpart hne := by
    obtain ⟨hshort, hne'⟩ | ⟨rest, rfl, hrest, hne'⟩ := prefix_append_cases hpart hne
    · simp [Bind.bind, StateT.bind, h.cut part hshort hne']
    · simp [Bind.bind, StateT.bind, h.whole rest, hnext.cut rest hrest hne']

/-! ## fields -/

theorem reads_uint32 (n : UInt32) : Reads getUInt32 (putUInt32 n) n where
  whole rest := by
    have hn : n.toNat < 1 <<< 32 := n.toNat_lt
    simp [getUInt32, putUInt32, Varint.decode?_encode rest (by decide) hn]
  cut part hpart hne := by
    simp [getUInt32, Varint.decode?_of_cut hpart hne]

theorem reads_uint16 (n : UInt16) : Reads getUInt16 (putUInt16 n) n where
  whole rest := by
    have hn : n.toNat < 1 <<< 16 := n.toNat_lt
    simp [getUInt16, putUInt16, Varint.decode?_encode rest (by decide) hn]
  cut part hpart hne := by
    simp [getUInt16, Varint.decode?_of_cut hpart hne]

theorem reads_bool (b : Bool) : Reads getBool (putBool b) b where
  whole rest := by cases b <;> simp [getBool, putBool]
  cut part hpart hne := by
    obtain rfl | rfl : part = [] ∨ part = putBool b := by
      cases part with
      | nil => exact .inl rfl
      | cons c rest => simp_all [putBool, List.cons_prefix_cons]
    · rfl
    · exact absurd rfl hne

theorem length_utf8_text_lt {capacity : Nat} (hcapacity : capacity < 1 <<< 64)
    (t : ShortText capacity) : (utf8 t.text).length < 1 <<< 64 := by
  rw [length_utf8]
  exact Nat.lt_of_le_of_lt t.size_le hcapacity

/-- A text is read if its length can be written. -/
theorem reads_text {capacity : Nat} (hcapacity : capacity < 1 <<< 64) (t : ShortText capacity) :
    Reads (getText capacity) (putText t) t where
  whole rest := by
    have hread := Varint.decode?_encode (utf8 t.text ++ rest) (by decide)
      (length_utf8_text_lt hcapacity t)
    simp [getText, putText, -length_utf8, hread, ofUtf8?_utf8, ShortText.ofString?, t.size_le]
  cut part hpart hne := by
    obtain ⟨hshort, hne'⟩ | ⟨rest, rfl, hrest, hne'⟩ := prefix_append_cases hpart hne
    · simp [getText, Varint.decode?_of_cut hshort hne']
    · -- the length is there, but not so many bytes after it
      have hread := Varint.decode?_encode rest (by decide) (length_utf8_text_lt hcapacity t)
      have hfew : rest.length < (utf8 t.text).length := by
        have hle := hrest.length_le
        have hlength_ne : rest.length ≠ (utf8 t.text).length := fun heq =>
          hne' (hrest.eq_of_length heq)
        omega
      simp [getText, -length_utf8, hread, hfew]

/-! ## configurations -/

theorem reads_config (c : Config) : Reads getConfig c.blob c := by
  have h24 : 24 < 1 <<< 64 := by decide
  have h16 : 16 < 1 <<< 64 := by decide
  have hblob : c.blob =
      putUInt32 c.reportIntervalSecs ++ (putUInt32 c.reportInitialDelayMs ++
      (putBool c.autoJoin ++ (putUInt32 c.commissioningTimeoutSecs ++
      (putUInt32 c.maxJoinAttempts ++ (putUInt32 c.joiningBlinkMs ++
      (putUInt32 c.disconnectedBlinkMs ++ (putUInt32 c.triggerPulseMs ++
      (putUInt32 c.boostedPollPeriodMs ++ (putUInt16 c.servicePort ++
      (putText c.instanceLabel ++ (putUInt32 c.resetGraceMs ++
      (putUInt32 c.rebootGraceMs ++ (putUInt32 c.deregisterTimeoutMs ++
      (putText c.softwareVersion ++ (putText c.firmwareType ++ []))))))))))))))) := by
    simp only [blob, List.append_assoc, List.append_nil]
  rw [hblob]
  refine .bind (reads_uint32 _) (.bind (reads_uint32 _) (.bind (reads_bool _) ?_))
  refine .bind (reads_uint32 _) (.bind (reads_uint32 _) (.bind (reads_uint32 _) ?_))
  refine .bind (reads_uint32 _) (.bind (reads_uint32 _) (.bind (reads_uint32 _) ?_))
  refine .bind (reads_uint16 _) (.bind (reads_text h24 _) (.bind (reads_uint32 _) ?_))
  refine .bind (reads_uint32 _) (.bind (reads_uint32 _) (.bind (reads_text h16 _) ?_))
  exact .bind (reads_text h16 _) (.pure _)

theorem length_putUInt32_le (n : UInt32) : (putUInt32 n).length ≤ 5 :=
  Varint.length_encode_le 32 n.toNat

theorem length_putUInt16_le (n : UInt16) : (putUInt16 n).length ≤ 3 :=
  Varint.length_encode_le 16 n.toNat

/-- The length of a short text is a single byte. -/
theorem length_putText_le {capacity : Nat} (hcapacity : capacity < 128) (t : ShortText capacity) :
    (putText t).length ≤ 1 + capacity := by
  have hsize := t.size_le
  have hlength : (Varint.encode 64 (utf8 t.text).length).length = 1 :=
    Varint.length_encode_of_lt (by decide) (by rw [length_utf8]; omega)
  rw [putText, List.length_append, hlength, length_utf8]
  omega

theorem length_blob_le (c : Config) : c.blob.length ≤ 118 := by
  have hbool : (putBool c.autoJoin).length = 1 := rfl
  have hport := length_putUInt16_le c.servicePort
  have hlabel := length_putText_le (by decide) c.instanceLabel
  have hversion := length_putText_le (by decide) c.softwareVersion
  have htype := length_putText_le (by decide) c.firmwareType
  simp only [blob, List.length_append]
  -- Eleven numbers of at most five bytes, and the five fields above.
  grind [length_putUInt32_le]

/-- A stored configuration reads back. Whatever follows it, it is read as exactly what was stored if
that can be used, and is refused for its first defect otherwise. No shorter start of it can be read,
and it takes 118 bytes at most. -/
theorem ofBlob?_blob (c : Config) (rest : Bytes) :
    (c.defect? = none → ofBlob? (c.blob ++ rest) = .ok c) ∧
    (∀ d, c.defect? = some d → ofBlob? (c.blob ++ rest) = .error d) ∧
    (∀ part, part <+: c.blob → part ≠ c.blob → ofBlob? part = .error .corrupted) ∧
    c.blob.length ≤ 118 := by
  have hread : ofBlob? (c.blob ++ rest) = c.validate := by
    simp [ofBlob?, (reads_config c).whole rest]
  refine ⟨fun hnone => ?_, fun d hsome => ?_, fun part hpart hne => ?_, length_blob_le c⟩
  · simp [hread, validate, hnone]
  · simp [hread, validate, hsome]
  · simp [ofBlob?, (reads_config c).cut part hpart hne]

/-- The default configuration and one without an interval, with more bytes after them, and the
default configuration without its last byte. -/
theorem ofBlob?_blob_default :
    (default.defect? = none ∧ ofBlob? (default.blob ++ [0xff, 0]) = .ok default) ∧
    ({ default with reportIntervalSecs := 0 }.defect? = some .zeroReportInterval ∧
      ofBlob? ({ default with reportIntervalSecs := 0 }.blob ++ [0xff, 0]) =
        .error .zeroReportInterval) ∧
    (default.blob.dropLast <+: default.blob ∧ default.blob.dropLast ≠ default.blob ∧
      ofBlob? default.blob.dropLast = .error .corrupted) := by
  have hsound : default.defect? = none := by decide
  have hzero : { default with reportIntervalSecs := 0 }.defect? = some .zeroReportInterval := by
    decide
  have hpart : default.blob.dropLast <+: default.blob := List.dropLast_prefix _
  have hne : default.blob.dropLast ≠ default.blob := by decide
  obtain ⟨hok, -, hcut, -⟩ := ofBlob?_blob default [0xff, 0]
  obtain ⟨-, herror, -⟩ := ofBlob?_blob { default with reportIntervalSecs := 0 } [0xff, 0]
  exact ⟨⟨hsound, hok hsound⟩, ⟨hzero, herror _ hzero⟩, hpart, hne, hcut _ hpart hne⟩

end Config

end MeshLight
