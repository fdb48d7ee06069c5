import Baseboard.Proofs.Text.Utf8

/-!
# Baseboard.Proofs.Text.Repair

What becomes of bytes that are not well-formed text.  `Repairs` says it without an
algorithm: where the bytes of a character stand, they are this character; anywhere else the
longest front that still begins like a character, or a single byte, is replaced.

```
F0 9F 41   E2 82 AC   C3
└───┘ A    └──────┘   └┘        text: U+FFFD A € U+FFFD
```

Main statement: decoding does just this, so the repaired text is the only one
(`repairs_iff`).
-/

namespace Baseboard.Utf8

/-! ## The longest run -/

theorem isRun_continuation (low high : UInt8) (n : Nat) (bs : List UInt8) :
    IsRun low high (continuation low high n bs) := by
  fun_induction continuation low high n bs with
  | case1 => trivial
  | case2 => trivial
  | case3 low high n b bs hb ih => exact ⟨hb, ih⟩
  | case4 => trivial

theorem IsRun.of_prefix {low high : UInt8} {front run : List UInt8} (h : IsRun low high run)
    (hfront : front <+: run) : IsRun low high front := by
  induction front generalizing low high run with
  | nil => trivial
  | cons b front ih =>
      obtain ⟨rest, rfl⟩ := hfront
      exact ⟨h.1, ih h.2 (List.prefix_append front rest)⟩

/-- No front of the bytes is a longer run. -/
theorem prefix_continuation {low high : UInt8} {n : Nat} {front bs : List UInt8}
    (hfront : front <+: bs) (hrun : IsRun low high front) (hlength : front.length ≤ n) :
    front <+: continuation low high n bs := by
  induction front generalizing low high n bs with
  | nil => exact List.nil_prefix
  | cons b front ih =>
      obtain ⟨rest, rfl⟩ := hfront
      cases n with
      | zero => contradiction
      | succ n =>
          rw [List.cons_append, continuation, if_pos hrun.1]
          exact List.cons_prefix_cons.mpr
            ⟨rfl, ih (List.prefix_append front rest) hrun.2 (Nat.le_of_succ_le_succ hlength)⟩

/-- A run that is too short can be completed. -/
theorem IsRun.exists_completion {low high : UInt8} {run : List UInt8} {n : Nat}
    (h : IsRun low high run) (hrange : low ≤ high) (hlength : run.length ≤ n) :
    ∃ full, run <+: full ∧ full.length = n ∧ IsRun low high full := by
  induction n generalizing low high run with
  | zero => exact ⟨run, List.prefix_rfl, Nat.le_zero.mp hlength, h⟩
  | succ n ih =>
      cases run with
      | nil =>
          have hnil : IsRun 0x80 0xBF [] := trivial
          obtain ⟨full, -, hfull, hrun⟩ := ih hnil (by decide) (Nat.zero_le n)
          exact ⟨low :: full, List.nil_prefix, congrArg Nat.succ hfull,
            ⟨UInt8.le_refl low, hrange⟩, hrun⟩
      | cons b run =>
          obtain ⟨full, hprefix, hfull, hrun⟩ :=
            ih h.2 (by decide) (Nat.le_of_succ_le_succ hlength)
          exact ⟨b :: full, List.cons_prefix_cons.mpr ⟨rfl, hprefix⟩, congrArg Nat.succ hfull,
            h.1, hrun⟩

/-- Some byte is in the range of a second byte. -/
theorem low_le_high_of_lead? {b low high : UInt8} {count : Nat}
    (h : lead? b = some ⟨count, low, high⟩) : low ≤ high := by
  have hall : ∀ lead ∈ lead? b, lead.low ≤ lead.high := by
    unfold lead?
    repeat' split
    all_goals simp
  exact hall _ h

/-! ## Fronts of characters -/

/-- The bytes of a character are a byte below 0x80, or what their first byte announces. -/
theorem announces_of_encodeChar {b : UInt8} {run : List UInt8} {c : Char}
    (h : String.utf8EncodeChar c = b :: run) : b < 0x80 ∨ Announces b run := by
  rcases encodeChar_cases c with ⟨b', hb, -, hchar⟩ | ⟨b', run', hspells, hchar⟩
  · obtain ⟨rfl, -⟩ := List.cons.inj (h.symm.trans hchar)
    exact .inl (UInt8.lt_iff_toNat_lt.mpr hb)
  · obtain ⟨rfl, rfl⟩ := List.cons.inj (h.symm.trans hchar)
    exact .inr hspells.announces

/-- What bytes look like that begin with a character. -/
theorem announces_of_encodeChar_prefix {b : UInt8} {bs : List UInt8} {c : Char}
    (h : String.utf8EncodeChar c <+: b :: bs) :
    b < 0x80 ∨ ∃ run, Announces b run ∧ run <+: bs := by
  rcases List.prefix_cons_iff.mp h with hnil | ⟨run, hchar, hrun⟩
  · exact absurd hnil String.utf8EncodeChar_ne_nil
  · exact (announces_of_encodeChar hchar).imp_right fun hannounces => ⟨run, hannounces, hrun⟩

/-- What the beginning of a character looks like. -/
theorem announces_of_prefix_encodeChar {b : UInt8} {front : List UInt8} {c : Char}
    (h : b :: front <+: String.utf8EncodeChar c) :
    b < 0x80 ∨ ∃ run, Announces b run ∧ front <+: run := by
  obtain ⟨run, hchar, hfront⟩ := List.cons_prefix_iff.mp h
  exact (announces_of_encodeChar hchar).imp_right fun hannounces => ⟨run, hannounces, hfront⟩

/-- What is announced lies within the longest run, as far as it is there. -/
theorem Announces.prefix_continuation {b low high : UInt8} {count : Nat}
    {run front bs : List UInt8} (h : Announces b run)
    (hlead : lead? b = some ⟨count, low, high⟩)
    (hfront : front <+: run) (hbs : front <+: bs) :
    run.length = count ∧ front <+: continuation low high count bs := by
  obtain ⟨low', high', hsome, hrun⟩ := h
  obtain ⟨rfl, rfl, rfl⟩ : count = run.length ∧ low = low' ∧ high = high' := by
    simpa [hlead] using hsome
  exact ⟨rfl, Utf8.prefix_continuation hbs (hrun.of_prefix hfront) hfront.length_le⟩

/-! ## Ill-formed parts -/

/-- `part` is the maximal ill-formed part at the front of `part ++ rest`. -/
structure IllFormed (part rest : List UInt8) : Prop where
  ne_nil : part ≠ []
  /-- No character stands at the front. -/
  no_char : ∀ c, ¬String.utf8EncodeChar c <+: part ++ rest
  /-- More than a single byte is replaced at once only where a character was begun. -/
  begun : part.length = 1 ∨ ∃ c, part <+: String.utf8EncodeChar c
  /-- Everything that belongs to the beginning of a character is replaced at once. -/
  longest : ∀ front c, front <+: part ++ rest → front <+: String.utf8EncodeChar c →
    front.length ≤ part.length

/-- The text that bytes stand for, with every maximal ill-formed part replaced. -/
inductive Repairs : List UInt8 → List Char → Prop where
  | nil : Repairs [] []
  | char (c : Char) {rest : List UInt8} {text : List Char} (h : Repairs rest text) :
      Repairs (String.utf8EncodeChar c ++ rest) (c :: text)
  | replaced {part rest : List UInt8} {text : List Char} (hpart : IllFormed part rest)
      (h : Repairs rest text) : Repairs (part ++ rest) (replacement :: text)

/-- The same bytes have only one ill-formed part at their front. -/
theorem IllFormed.unique {part rest part' rest' : List UInt8} (h : IllFormed part rest)
    (h' : IllFormed part' rest') (heq : part ++ rest = part' ++ rest') :
    part = part' ∧ rest = rest' := by
  have hle {part rest part' rest' : List UInt8} (h : IllFormed part rest)
      (h' : IllFormed part' rest') (heq : part ++ rest = part' ++ rest') :
      part'.length ≤ part.length := by
    rcases h'.begun with hone | ⟨c, hc⟩
    · rw [hone]
      exact List.length_pos_iff.mpr h.ne_nil
    · exact h.longest part' c (heq ▸ List.prefix_append part' rest') hc
  exact List.append_inj heq (Nat.le_antisymm (hle h' h heq.symm) (hle h h' heq))

/-- A byte that starts no character is ill-formed by itself. -/
theorem illFormed_of_lead?_none {b : UInt8} (hascii : ¬b < 0x80) (hlead : lead? b = none)
    (bs : List UInt8) : IllFormed [b] bs := by
  have hnone (run : List UInt8) : ¬Announces b run := by
    rintro ⟨low, high, hsome, -⟩
    rw [hlead] at hsome
    contradiction
  refine ⟨List.cons_ne_nil _ _, fun c hc => ?_, .inl rfl, fun front c hbytes hc => ?_⟩
  · rcases announces_of_encodeChar_prefix hc with hlt | ⟨run, hrun, -⟩
    · exact hascii hlt
    · exact hnone run hrun
  · cases front with
    | nil => exact Nat.zero_le 1
    | cons b' front =>
        obtain ⟨rfl, -⟩ := List.cons_prefix_cons.mp hbytes
        rcases announces_of_prefix_encodeChar hc with hlt | ⟨run, hrun, -⟩
        · exact absurd hlt hascii
        · exact absurd hrun (hnone run)

/-- A sequence that breaks off is ill-formed as far as it goes. -/
theorem illFormed_of_short {b low high : UInt8} {count : Nat} {bs : List UInt8}
    (hlead : lead? b = some ⟨count, low, high⟩)
    (hshort : (continuation low high count bs).length ≠ count) :
    IllFormed (b :: continuation low high count bs)
      (bs.drop (continuation low high count bs).length) := by
  have hascii := not_ascii_of_lead? hlead
  have hwhole := continuation_append_drop low high count bs
  have hlt := Nat.lt_of_le_of_ne (length_continuation_le low high count bs) hshort
  refine ⟨List.cons_ne_nil _ _, fun c hc => ?_, .inr ?_, fun front c hbytes hc => ?_⟩
  · rw [List.cons_append, hwhole] at hc
    rcases announces_of_encodeChar_prefix hc with hlow | ⟨run, hrun, hbs⟩
    · exact hascii hlow
    · obtain ⟨hcount, hprefix⟩ := hrun.prefix_continuation hlead List.prefix_rfl hbs
      have hle := hprefix.length_le
      omega
  -- The run can be completed to what its first byte announces, which is a character.
  · obtain ⟨full, hprefix, hlength, hfull⟩ :=
      (isRun_continuation low high count bs).exists_completion (low_le_high_of_lead? hlead)
        (Nat.le_of_lt hlt)
    refine ⟨scalar b full, ?_⟩
    rw [encodeChar_scalar ⟨low, high, by rw [hlength, hlead], hfull⟩]
    exact List.cons_prefix_cons.mpr ⟨rfl, hprefix⟩
  · rw [List.cons_append, hwhole] at hbytes
    cases front with
    | nil => exact Nat.zero_le _
    | cons b' front =>
        obtain ⟨rfl, hbs⟩ := List.cons_prefix_cons.mp hbytes
        rcases announces_of_prefix_encodeChar hc with hlow | ⟨run, hrun, hfront⟩
        · exact absurd hlow hascii
        · obtain ⟨-, hprefix⟩ := hrun.prefix_continuation hlead hfront hbs
          exact Nat.succ_le_succ hprefix.length_le

/-! ## Decoding -/

/-- Decoding takes a character or an ill-formed part off the front. -/
theorem decode_front (b : UInt8) (bs : List UInt8) :
    (∃ c rest, b :: bs = String.utf8EncodeChar c ++ rest ∧
      decode (b :: bs) = c :: decode rest) ∨
    (∃ part rest, b :: bs = part ++ rest ∧ IllFormed part rest ∧
      decode (b :: bs) = replacement :: decode rest) := by
  by_cases hascii : b < 0x80
  · refine .inl ⟨Char.ofNat b.toNat, bs, ?_, by rw [decode, if_pos hascii]⟩
    have hlt := UInt8.lt_iff_toNat_lt.mp hascii
    simp only [UInt8.reduceToNat] at hlt
    rw [String.utf8EncodeChar, toNat_ofNat_of_valid (by omega), if_pos (by omega),
      UInt8.ofNat_toNat]
    rfl
  cases hlead : lead? b with
  | none =>
      refine .inr ⟨[b], bs, rfl, illFormed_of_lead?_none hascii hlead bs, ?_⟩
      rw [decode, if_neg hascii, hlead]
  | some lead =>
      obtain ⟨count, low, high⟩ := lead
      have hwhole := continuation_append_drop low high count bs
      by_cases hfull : (continuation low high count bs).length = count
      · refine .inl ⟨scalar b (continuation low high count bs),
          bs.drop (continuation low high count bs).length, ?_, ?_⟩
        · rw [encodeChar_scalar ⟨low, high, by rw [hfull, hlead], isRun_continuation ..⟩,
            List.cons_append, hwhole]
        · rw [decode, if_neg hascii, hlead]
          simp only [if_pos hfull]
      · refine .inr ⟨_, _, ?_, illFormed_of_short hlead hfull, ?_⟩
        · rw [List.cons_append, hwhole]
        · rw [decode, if_neg hascii, hlead]
          simp only [if_neg hfull]

/-- Decoding repairs every byte list. -/
theorem repairs_decode : (bytes : List UInt8) → Repairs bytes (decode bytes)
  | [] => by
      rw [decode]
      exact .nil
  | b :: bs => by
      rcases decode_front b bs with
        ⟨c, rest, hbytes, hdecode⟩ | ⟨part, rest, hbytes, hpart, hdecode⟩
      · have hpos := List.length_pos_iff.mpr (String.utf8EncodeChar_ne_nil (c := c))
        have hlength := congrArg List.length hbytes
        rw [hdecode, hbytes]
        exact .char c (repairs_decode rest)
      · have hpos := List.length_pos_iff.mpr hpart.ne_nil
        have hlength := congrArg List.length hbytes
        rw [hdecode, hbytes]
        exact .replaced hpart (repairs_decode rest)
termination_by bytes => bytes.length
decreasing_by
  all_goals
    simp only [List.length_append] at hlength
    omega

/-- There is no other way to repair it. -/
theorem decode_of_repairs {bytes : List UInt8} {text : List Char} (h : Repairs bytes text) :
    decode bytes = text := by
  induction h with
  | nil => rw [decode]
  | char c h ih => rw [decode_encodeChar_append, ih]
  | @replaced part rest text hpart h ih =>
      cases part with
      | nil => exact absurd rfl hpart.ne_nil
      | cons b front =>
          rcases decode_front b (front ++ rest) with
            ⟨c, rest', hbytes, -⟩ | ⟨part', rest', hbytes, hpart', hdecode⟩
          · exact absurd ⟨rest', hbytes.symm⟩ (hpart.no_char c)
          · obtain ⟨rfl, rfl⟩ := hpart.unique hpart' hbytes
            rw [List.cons_append, hdecode, ih]

/-- Bytes have one repaired text, the one that they are decoded to. -/
theorem repairs_iff {bytes : List UInt8} {text : List Char} :
    Repairs bytes text ↔ decode bytes = text :=
  ⟨decode_of_repairs, fun h => h ▸ repairs_decode bytes⟩

end Baseboard.Utf8
