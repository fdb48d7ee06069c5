import Baseboard.Proofs.Calendar.Text
import Baseboard.Proofs.Fru.Span
import Baseboard.Sel.Timestamp

/-!
# Baseboard.Proofs.Calendar.Instant

Instants as they are shown.  The event log shows the time of an entry, and an inventory the
time at which its board was made.  Both count from 1970 in the end and are shown in one form,
in which years have four digits; neither count gets as far as five.

Main statement: an instant can be read off its text, so that texts agree just when instants do,
and texts are in the order of time (`Instant.rendering_faithful`).
-/

namespace Baseboard

/-! ## Counts of 32 bits -/

namespace DateTime

/-- A count of 32 bits ends in 2106. -/
theorem fits_ofUnix {seconds : Nat} (h : seconds < 2 ^ 32) : (ofUnix seconds).Fits := by
  have hdays : 365 * ((ofUnix seconds).year - 1970) ≤ (ofUnix seconds).dayNumber := by
    rw [dayNumber, daysBeforeYear]
    omega
  have hseconds := (ofUnix seconds).le_toUnix
  rw [toUnix_ofUnix] at hseconds
  exact (valid_ofUnix seconds).fits (by omega)

theorem ofText?_text_ofUnix {seconds : Nat} (h : seconds < 2 ^ 32) :
    (ofText? (ofUnix seconds).text).map toUnix = some seconds := by
  rw [ofText?_text (valid_ofUnix seconds) (fits_ofUnix h), Option.map_some, toUnix_ofUnix]

/-- Later instants have later texts. -/
theorem text_ofUnix_lt {seconds seconds' : Nat} (h' : seconds' < 2 ^ 32)
    (h : seconds < seconds') : (ofUnix seconds).text < (ofUnix seconds').text := by
  refine text_lt_text (fits_ofUnix h') ?_
  rw [← (valid_ofUnix seconds).toUnix_lt_iff (valid_ofUnix seconds'), toUnix_ofUnix,
    toUnix_ofUnix]
  exact h

theorem text_ofUnix_lt_iff {seconds seconds' : Nat} (h : seconds < 2 ^ 32)
    (h' : seconds' < 2 ^ 32) :
    (ofUnix seconds).text < (ofUnix seconds').text ↔ seconds < seconds' := by
  refine ⟨fun htext => ?_, text_ofUnix_lt h'⟩
  rcases Nat.lt_trichotomy seconds seconds' with hlt | rfl | hgt
  · exact hlt
  · exact absurd htext (String.lt_irrefl _)
  · exact absurd htext (String.lt_asymm (text_ofUnix_lt h hgt))

theorem text_ofUnix_inj {seconds seconds' : Nat} (h : seconds < 2 ^ 32)
    (h' : seconds' < 2 ^ 32) :
    (ofUnix seconds).text = (ofUnix seconds').text ↔ seconds = seconds' := by
  refine ⟨fun htext => ?_, congrArg fun seconds => (ofUnix seconds).text⟩
  have hread := ofText?_text_ofUnix h
  rw [htext, ofText?_text_ofUnix h'] at hread
  exact (Option.some.inj hread).symm

end DateTime

/-! ## What is shown -/

/-- The date of manufacture that an area holds is that of its bytes 3 to 5. -/
theorem Fru.BoardArea.exists_manufactured {buf : List UInt8} {a : BoardArea}
    (h : decode buf = .ok a) :
    ∃ b0 b1 b2 rest, buf.drop 3 = b0 :: b1 :: b2 :: rest ∧
      a.manufactured = manufactureTime b0 b1 b2 := by
  rw [decode_eq] at h
  cases hspan : AreaKind.board.span buf with
  | error fault =>
      rw [hspan] at h
      contradiction
  | ok span =>
      rw [hspan] at h
      obtain rfl : ofSpan span = a := Except.ok.inj h
      obtain ⟨-, tail, rfl⟩ := AreaKind.span_eq_ok_iff.mp hspan
      have hroom : 6 < span.val.length := span.property
      refine ⟨span.val[3], span.val[4], span.val[5], span.val.drop 6 ++ tail, ?_, rfl⟩
      rw [List.drop_append_of_le_length (by omega), List.drop_eq_getElem_cons (by omega),
        List.drop_eq_getElem_cons (by omega), List.drop_eq_getElem_cons (by omega)]
      rfl

/-- An instant that is shown as a date and time. -/
inductive Instant where
  /-- The time of an entry of the log, as it was recorded. -/
  | logged (raw : UInt32) (absolute : 0x20000000 < raw) (specified : raw ≠ 0xFFFFFFFF)
  /-- The time at which a board was made, in minutes, low byte first. -/
  | made (b0 b1 b2 : UInt8)

namespace Instant

def text : Instant → String
  | logged raw _ _ => (Sel.Timestamp.ofRaw raw).text
  | made b0 b1 b2 => (DateTime.ofUnix (Fru.manufactureTime b0 b1 b2)).text

/-- Seconds since 1970. -/
def seconds : Instant → Nat
  | logged raw _ _ => raw.toNat
  | made b0 b1 b2 => 820454400 + 60 * (b0.toNat + 256 * b1.toNat + 65536 * b2.toNat)

theorem seconds_lt (i : Instant) : i.seconds < 2 ^ 32 := by
  cases i with
  | logged raw => exact raw.toNat_lt
  | made b0 b1 b2 =>
      have h0 := b0.toNat_lt
      have h1 := b1.toNat_lt
      have h2 := b2.toNat_lt
      rw [seconds]
      omega

theorem text_eq (i : Instant) : i.text = (DateTime.ofUnix i.seconds).text := by
  cases i with
  | logged raw absolute specified =>
      have hinit : ¬raw ≤ Sel.Timestamp.preInitMax := UInt32.not_le.mpr absolute
      have hofRaw : Sel.Timestamp.ofRaw raw = .absolute raw := by
        rw [Sel.Timestamp.ofRaw, if_neg specified, if_neg hinit]
      rw [text, hofRaw]
      rfl
  | made b0 b1 b2 => rw [text, seconds, Fru.manufactureTime, toNat_le24, Fru.boardEpoch]

theorem text_eq_of_seconds {i : Instant} {t : DateTime} (h : t.Valid)
    (hseconds : i.seconds = t.toUnix) : i.text = t.text := by
  rw [text_eq, hseconds, DateTime.ofUnix_toUnix h]

/-- Every instant is read back from its text with the calendar, texts agree and are ordered as
the instants are, and every board area shows such an instant, that of its bytes 3 to 5. -/
theorem rendering_faithful :
    (∀ i : Instant, (DateTime.ofText? i.text).map DateTime.toUnix = some i.seconds) ∧
      (∀ i j : Instant, (i.text = j.text ↔ i.seconds = j.seconds) ∧
        (i.text < j.text ↔ i.seconds < j.seconds)) ∧
      ∀ buf a, Fru.BoardArea.decode buf = .ok a →
        ∃ b0 b1 b2 rest, buf.drop 3 = b0 :: b1 :: b2 :: rest ∧
          a.manufacturedAt.text = (made b0 b1 b2).text := by
  refine ⟨fun i => ?_, fun i j => ?_, fun buf a h => ?_⟩
  · rw [text_eq, DateTime.ofText?_text_ofUnix i.seconds_lt]
  · rw [text_eq, text_eq]
    exact ⟨DateTime.text_ofUnix_inj i.seconds_lt j.seconds_lt,
      DateTime.text_ofUnix_lt_iff i.seconds_lt j.seconds_lt⟩
  · obtain ⟨b0, b1, b2, rest, hbytes, htime⟩ := Fru.BoardArea.exists_manufactured h
    exact ⟨b0, b1, b2, rest, hbytes, by rw [Fru.BoardArea.manufacturedAt, htime, text]⟩

/-- In 2100 the second before March is in 28 February; and a board that was made 1440 minutes
into its count shows the second day of 1996. -/
theorem rendering_marchOf2100 :
    (logged 4107542399 (by decide) (by decide)).text = "2100-02-28 23:59:59" ∧
      (logged 4107542400 (by decide) (by decide)).text = "2100-03-01 00:00:00" ∧
      (logged 4107542399 (by decide) (by decide)).text <
        (logged 4107542400 (by decide) (by decide)).text ∧
      ∃ a, Fru.BoardArea.decode [0x01, 0x01, 0x19, 0xA0, 0x05, 0x00, 0xC1, 0x7F] = .ok a ∧
        a.manufacturedAt.text = "1996-01-02 00:00:00" := by
  obtain ⟨-, horder, hboard⟩ := rendering_faithful
  refine ⟨?_, ?_, (horder _ _).2.mpr (by decide), ?_⟩
  · exact text_eq_of_seconds (t := ⟨2100, 2, 28, 23, 59, 59⟩) (by decide) (by decide)
  · exact text_eq_of_seconds (t := ⟨2100, 3, 1, 0, 0, 0⟩) (by decide) (by decide)
  · obtain ⟨b0, b1, b2, rest, hbytes, htext⟩ :=
      hboard [0x01, 0x01, 0x19, 0xA0, 0x05, 0x00, 0xC1, 0x7F] _ rfl
    obtain ⟨rfl, rfl, rfl, rfl⟩ :
        0xA0 = b0 ∧ 0x05 = b1 ∧ 0x00 = b2 ∧ [0xC1, 0x7F] = rest := by
      simpa using hbytes
    exact ⟨_, rfl, htext.trans
      (text_eq_of_seconds (t := ⟨1996, 1, 2, 0, 0, 0⟩) (by decide) (by decide))⟩

end Instant

end Baseboard
