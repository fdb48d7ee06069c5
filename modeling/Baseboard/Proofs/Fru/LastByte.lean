import Baseboard.Proofs.Fru.Corruption
import Baseboard.Proofs.Fru.Grammar

/-!
# Baseboard.Proofs.Fru.LastByte

The last byte of an area.  It is the checksum, but the fields are read from all bytes of the
area, and so this byte is in their reach, too:

```
area  =  fixed bytes ++ list ++ checksum        fields are read from list ++ checksum
```

A list that is closed by its end mark, or by a field that lacks more than one byte, does not
come to the checksum.  A list that runs out in front of it does: the checksum is then read as
the type/length byte of an empty field, or as the last byte of the field that lacked one.

Main statement: what an area says after its last byte was changed.  Only the checksum is
another where the list is closed, and only there (`lastByte_framed`).
-/

namespace Baseboard.Fru

/-! ## Where a list stops -/

/-- The bytes from the place on where a list of fields stops. -/
def unread : List UInt8 → List UInt8
  | [] => []
  | b :: rest =>
    if b = endOfFields then b :: rest
    else if b = 0 then unread rest
    else if (b % 64).toNat ≤ rest.length then unread (rest.drop (b % 64).toNat)
    else b :: rest
termination_by bytes => bytes.length
decreasing_by
  · exact Nat.lt_succ_self _
  · rw [List.length_drop, List.length_cons]
    omega

theorem stops_unread (bytes : List UInt8) : Stops (unread bytes) := by
  fun_induction unread bytes with
  | case1 => exact .nil
  | case2 rest => exact .marked rest
  | case3 rest _ ih => exact ih
  | case4 b rest hend hzero hlength ih => exact ih
  | case5 b rest hend hzero hlength => exact .overrun hzero hend (Nat.lt_of_not_le hlength)

/-- With more bytes behind them, a list is read on from where it stopped. -/
theorem fieldList_append (bytes more : List UInt8) :
    fieldList (bytes ++ more) = fieldList bytes ++ fieldList (unread bytes ++ more) := by
  fun_induction unread bytes with
  | case1 => rw [fieldList, List.nil_append, List.nil_append]
  | case2 rest => rw [fieldList_end, List.nil_append]
  | case3 rest _ ih => rw [List.cons_append, fieldList_zero, fieldList_zero, ih]
  | case4 b rest hend hzero hlength ih =>
      have hmore : (b % 64).toNat ≤ (rest ++ more).length := by
        rw [List.length_append]
        omega
      rw [List.cons_append, fieldList_fits hzero hend hmore, fieldList_fits hzero hend hlength,
        List.take_append_of_le_length hlength, List.drop_append_of_le_length hlength, ih,
        List.cons_append]
  | case5 b rest hend hzero hlength =>
      rw [fieldList_of_stops (.overrun hzero hend (Nat.lt_of_not_le hlength)), List.nil_append]

/-- The field that one byte completes behind the place where a list stops: an empty one, or
the one that lacked this byte. -/
def completed? : List UInt8 → UInt8 → Option Field
  | [], last => if last ≠ 0 ∧ last % 64 = 0 then some ⟨.ofTypeLength last, []⟩ else none
  | b :: data, last =>
    if b ≠ endOfFields ∧ (b % 64).toNat = data.length + 1 then
      some ⟨.ofTypeLength b, data ++ [last]⟩
    else none

theorem fieldList_concat_of_stops {left : List UInt8} (h : Stops left) (last : UInt8) :
    fieldList (left ++ [last]) = (completed? left last).toList := by
  cases h with
  | nil =>
      rw [List.nil_append, completed?]
      by_cases hend : last = endOfFields
      · rw [hend, fieldList_end, if_neg (by decide), Option.toList_none]
      by_cases hzero : last = 0
      · rw [hzero, fieldList_zero, fieldList, if_neg (by decide), Option.toList_none]
      by_cases hlength : last % 64 = 0
      · have hfits : (last % 64).toNat ≤ ([] : List UInt8).length := by rw [hlength]; decide
        rw [fieldList_fits hzero hend hfits, if_pos ⟨hzero, hlength⟩, Option.toList_some,
          List.take_nil, List.drop_nil, fieldList]
      · have hpos : ([] : List UInt8).length < (last % 64).toNat :=
          Nat.pos_of_ne_zero fun hnat => hlength (UInt8.toNat_inj.mp hnat)
        rw [fieldList_of_stops (.overrun hzero hend hpos), if_neg fun h => hlength h.2,
          Option.toList_none]
  | marked tail =>
      rw [List.cons_append, fieldList_end, completed?, if_neg fun h => h.1 rfl, Option.toList_none]
  | @overrun b data hzero hend hlength =>
      have hconcat : (data ++ [last]).length = data.length + 1 := List.length_append
      rw [List.cons_append, completed?]
      by_cases hone : (b % 64).toNat = data.length + 1
      · rw [fieldList_fits hzero hend (by omega), if_pos ⟨hend, hone⟩, hone, ← hconcat,
          List.take_length, List.drop_length, fieldList, Option.toList_some]
      · rw [fieldList_of_stops (.overrun hzero hend (by omega)), if_neg fun h => hone h.2,
          Option.toList_none]

theorem fieldList_concat (list : List UInt8) (last : UInt8) :
    fieldList (list ++ [last]) = fieldList list ++ (completed? (unread list) last).toList := by
  rw [fieldList_append, fieldList_concat_of_stops (stops_unread list)]

/-- Whether a list cannot go on where it stops, whatever byte comes next. -/
def Closed : List UInt8 → Prop
  | [] => False
  | b :: data => b = endOfFields ∨ data.length + 1 < (b % 64).toNat

theorem completed?_of_closed {left : List UInt8} (h : Closed left) (last : UInt8) :
    completed? left last = none := by
  cases left with
  | nil => exact h.elim
  | cons b data =>
      rw [completed?, if_neg]
      rintro ⟨hend, hone⟩
      rcases h with hmark | hmore
      · exact hend hmark
      · omega

/-- Where a list is not closed, there is a byte that completes another field. -/
theorem exists_completed?_ne {left : List UInt8} (hstops : Stops left) (h : ¬Closed left)
    (last : UInt8) : ∃ c, (completed? left c).toList ≠ (completed? left last).toList := by
  cases hstops with
  | nil =>
      by_cases hnone : completed? [] last = none
      · exact ⟨0xC0, by rw [hnone]; decide⟩
      · exact ⟨0, fun hzero => hnone (Option.toList_eq_nil_iff.mp hzero.symm)⟩
  | marked tail => exact absurd (.inl rfl) h
  | @overrun b data hzero hend hlength =>
      have hone : (b % 64).toNat = data.length + 1 := by
        have hmore : ¬data.length + 1 < (b % 64).toNat := fun hmore => h (.inr hmore)
        omega
      refine ⟨last + 1, ?_⟩
      rw [completed?, completed?, if_pos ⟨hend, hone⟩, if_pos ⟨hend, hone⟩]
      intro heq
      simp at heq

/-! ## Areas -/

/-- The bytes of an area between its fixed ones and its last one, by its length. -/
def AreaKind.list (kind : AreaKind) (units : UInt8) (buf : List UInt8) : List UInt8 :=
  (buf.take (8 * units.toNat - 1)).drop kind.fieldsStart

/-- What an area says with another last byte, when some list of fields stands before it. -/
def Area.withLast (list : List UInt8) (last : UInt8) (a : Area) : Area :=
  { a with fields := fieldList list ++ (completed? (unread list) last).toList, checksum := last }

theorem Area.withLast_of_closed {list : List UInt8} (h : Closed (unread list)) (last : UInt8)
    (a : Area) : a.withLast list last = { a with fields := fieldList list, checksum := last } := by
  rw [withLast, completed?_of_closed h, Option.toList_none, List.append_nil]

theorem fieldsStart_le_of_concat {kind : AreaKind} {body : List UInt8} {last : UInt8}
    (h : kind.fieldsStart < (body ++ [last]).length) : kind.fieldsStart ≤ body.length := by
  rw [List.length_append] at h
  exact Nat.le_of_lt_succ h

/-- Bytes before the last one are the same whatever the last one is. -/
theorem getElem_concat_congr {body : List UInt8} {i : Nat} (c last : UInt8) (hi : i < body.length)
    {hc : i < (body ++ [c]).length} {hlast : i < (body ++ [last]).length} :
    (body ++ [c])[i] = (body ++ [last])[i] := by
  rw [List.getElem_append_left hi, List.getElem_append_left hi]

/-- The last byte of an area is its checksum, and its fields are read up to it. -/
theorem Area.ofSpan_concat {kind : AreaKind} {body : List UInt8} {last c : UInt8}
    (hlast : kind.fieldsStart < (body ++ [last]).length)
    (hc : kind.fieldsStart < (body ++ [c]).length) :
    ofSpan kind (body ++ [c]) hc =
      (ofSpan kind (body ++ [last]) hlast).withLast (body.drop kind.fieldsStart) c := by
  have htwo := kind.two_lt_fieldsStart
  have hbody := fieldsStart_le_of_concat hlast
  simp only [withLast, ofSpan, Area.mk.injEq, List.dropLast_concat, and_true]
  refine ⟨?_, getElem_concat_congr c last (by omega), ?_, ?_⟩
  · rw [getElem_concat_congr c last (by omega)]
  · rw [List.drop_append_of_le_length hbody, fieldList_concat]
  · simp

/-- What comes of the last byte of an area that `decode` reads off `buf`.  The parts that
every area has are given by `toArea` and replaced by `withArea`; `list` is what stands between
the fixed bytes and the last one. -/
structure Framed {α : Type} (decode : List UInt8 → Except Fault α) (toArea : α → Area)
    (withArea : α → Area → α) (list buf : List UInt8) (a : α) : Prop where
  /-- The fields are those before the last byte and the one that this byte completes. -/
  fields_eq : (toArea a).fields =
    fieldList list ++ (completed? (unread list) (toArea a).checksum).toList
  /-- With another last byte, nothing but this last field and the checksum is another. -/
  set_last : ∀ c, decode (buf.set (8 * (toArea a).length.toNat - 1) c) =
    .ok (withArea a ((toArea a).withLast list c))
  /-- Where the list is closed before the last byte, no field uses that byte, and a change of
  it changes the checksum alone. -/
  closed : Closed (unread list) → (toArea a).fields = fieldList list ∧
    ∀ c, decode (buf.set (8 * (toArea a).length.toNat - 1) c) =
      .ok (withArea a { toArea a with checksum := c })
  /-- Where it is not, there is a last byte with which the fields are others. -/
  taken : ¬Closed (unread list) → ∃ c a',
    decode (buf.set (8 * (toArea a).length.toNat - 1) c) = .ok a' ∧
      (toArea a').fields ≠ (toArea a).fields

section

variable {α : Type} {kind : AreaKind} {decode : List UInt8 → Except Fault α}
  {say : kind.Span → α} {toArea : α → Area} {withArea : α → Area → α} {buf : List UInt8}

/-- An area stands in the buffer with its last byte behind the list, and with any other byte
in its place it is still an area. -/
theorem exists_body_of_decode {a : α} (hdecode : ∀ buf, decode buf = (kind.span buf).map say)
    (hparts : ∀ span, toArea (say span) = .ofSpan kind span.val span.property)
    (h : decode buf = .ok a) :
    ∃ (body : List UInt8) (last : UInt8) (hlast : kind.fieldsStart < (body ++ [last]).length),
      a = say ⟨body ++ [last], hlast⟩ ∧
      body.drop kind.fieldsStart = kind.list (toArea a).length buf ∧
      ∀ c, ∃ hc : kind.fieldsStart < (body ++ [c]).length,
        decode (buf.set (8 * (toArea a).length.toNat - 1) c) = .ok (say ⟨body ++ [c], hc⟩) := by
  obtain ⟨⟨bytes, hstart⟩, hspan, rfl⟩ := exists_span_of_decode hdecode h
  obtain ⟨hdeclared, tail, rfl⟩ := AreaKind.span_eq_ok_iff.mp hspan
  have hne : bytes ≠ [] := List.ne_nil_of_length_pos (by omega)
  obtain ⟨body, last, rfl⟩ : ∃ body last, bytes = body ++ [last] :=
    ⟨bytes.dropLast, bytes.getLast hne, (List.dropLast_concat_getLast hne).symm⟩
  have htwo := kind.two_lt_fieldsStart
  have hbody := fieldsStart_le_of_concat hstart
  have hlength :
      8 * (toArea (say ⟨body ++ [last], hstart⟩)).length.toNat - 1 = body.length := by
    rw [hparts, ← hdeclared.length_eq hstart, List.length_append]
    exact Nat.add_sub_cancel body.length 1
  refine ⟨body, last, hstart, rfl, ?_, fun c => ?_⟩
  · rw [AreaKind.list, hlength, List.append_assoc, List.take_left]
  · have hset : (body ++ [last]).set body.length c = body ++ [c] := by simp
    have hc : kind.fieldsStart < (body ++ [c]).length := by
      rw [List.length_append]
      exact Nat.lt_succ_of_le hbody
    have hdeclared' := hdeclared.set (i := body.length) (b := c) (by omega) (by omega)
    rw [hset] at hdeclared'
    refine ⟨hc, ?_⟩
    rw [hlength, List.set_append_left _ _ (by simp), hset, hdecode,
      AreaKind.span_append hdeclared' hc tail]
    rfl

theorem framed_of_span {a : α} (hdecode : ∀ buf, decode buf = (kind.span buf).map say)
    (hparts : ∀ span, toArea (say span) = .ofSpan kind span.val span.property)
    (hwith : ∀ a area, toArea (withArea a area) = area)
    (hframe : ∀ body last c h hc, say ⟨body ++ [c], hc⟩ =
      withArea (say ⟨body ++ [last], h⟩) (.ofSpan kind (body ++ [c]) hc))
    (h : decode buf = .ok a) :
    Framed decode toArea withArea (kind.list (toArea a).length buf) buf a := by
  obtain ⟨body, last, hlast, ha, hlist, hset⟩ := exists_body_of_decode hdecode hparts h
  have hparts_a : toArea a = .ofSpan kind (body ++ [last]) hlast := by rw [ha, hparts]
  rw [← hlist]
  have hset_last : ∀ c, decode (buf.set (8 * (toArea a).length.toNat - 1) c) =
      .ok (withArea a ((toArea a).withLast (body.drop kind.fieldsStart) c)) := by
    intro c
    obtain ⟨hc, hread⟩ := hset c
    rw [hread, hframe body last c hlast hc, ← ha, Area.ofSpan_concat hlast hc, ← hparts_a]
  have hcurrent : toArea a = (toArea a).withLast (body.drop kind.fieldsStart) last := by
    rw [hparts_a]
    exact Area.ofSpan_concat hlast hlast
  have hchecksum : (toArea a).checksum = last := congrArg Area.checksum hcurrent
  have hfields : (toArea a).fields = fieldList (body.drop kind.fieldsStart) ++
      (completed? (unread (body.drop kind.fieldsStart)) (toArea a).checksum).toList := by
    rw [hchecksum]
    exact congrArg Area.fields hcurrent
  refine ⟨hfields, hset_last, fun hclosed => ?_, fun hopen => ?_⟩
  · have hread : (toArea a).fields = fieldList (body.drop kind.fieldsStart) := by
      rw [hfields, completed?_of_closed hclosed, Option.toList_none, List.append_nil]
    exact ⟨hread, fun c => by rw [hset_last, Area.withLast_of_closed hclosed, ← hread]⟩
  · obtain ⟨c, hne⟩ := exists_completed?_ne (stops_unread _) hopen (toArea a).checksum
    refine ⟨c, _, hset_last c, fun heq => hne ?_⟩
    rw [hwith, hfields] at heq
    exact List.append_cancel_left heq

end

/-- Whatever the buffer, an area that a decoder takes from it has the fields that stand before
its last byte, and at most one more, which that byte completes.  If the bytes before it close
the list, no field uses the last byte, and a change of it changes the checksum and nothing
else.  If they do not, the byte that is the checksum is read as a field, too, or as the end of
one, and a change of it changes this field with the checksum. -/
theorem lastByte_framed (buf : List UInt8) :
    (∀ a, ChassisArea.decode buf = .ok a →
      Framed ChassisArea.decode ChassisArea.toArea (fun a area => { a with toArea := area })
        (AreaKind.chassis.list a.length buf) buf a) ∧
    (∀ a, BoardArea.decode buf = .ok a →
      Framed BoardArea.decode BoardArea.toArea (fun a area => { a with toArea := area })
        (AreaKind.board.list a.length buf) buf a) ∧
    (∀ a, ProductArea.decode buf = .ok a →
      Framed ProductArea.decode ProductArea.toArea (fun a area => { a with toArea := area })
        (AreaKind.product.list a.length buf) buf a) := by
  refine ⟨fun a h => ?_, fun a h => ?_, fun a h => ?_⟩
  · refine framed_of_span ChassisArea.decode_eq (fun _ => rfl) (fun _ _ => rfl) ?_ h
    intro body last c hlast hc
    have hbody : 3 ≤ body.length := fieldsStart_le_of_concat hlast
    simp only [ChassisArea.ofSpan, ChassisArea.mk.injEq, true_and]
    exact getElem_concat_congr c last (by omega)
  · refine framed_of_span BoardArea.decode_eq (fun _ => rfl) (fun _ _ => rfl) ?_ h
    intro body last c hlast hc
    have hbody : 6 ≤ body.length := fieldsStart_le_of_concat hlast
    simp only [BoardArea.ofSpan, BoardArea.mk.injEq, true_and]
    refine ⟨getElem_concat_congr c last (by omega), ?_⟩
    rw [getElem_concat_congr c last (by omega), getElem_concat_congr c last (by omega),
      getElem_concat_congr c last (by omega)]
  · refine framed_of_span ProductArea.decode_eq (fun _ => rfl) (fun _ _ => rfl) ?_ h
    intro body last c hlast hc
    have hbody : 3 ≤ body.length := fieldsStart_le_of_concat hlast
    simp only [ProductArea.ofSpan, ProductArea.mk.injEq, true_and]
    exact getElem_concat_congr c last (by omega)

/-- A product area that leaves its list open: the checksum is right, and it is the last letter
of the only field, so that another checksum makes another field. -/
theorem lastByte_readAsField :
    ∃ a, ProductArea.decode [0x01, 0x01, 0x00, 0xC4, 0x41, 0x42, 0x43, 0x74] = .ok a ∧
      a.checksum = 0x74 ∧ a.checksumValid = true ∧
      a.fields = [⟨.ascii8, [0x41, 0x42, 0x43, 0x74]⟩] ∧
      ∃ a', ProductArea.decode ([0x01, 0x01, 0x00, 0xC4, 0x41, 0x42, 0x43, 0x74].set 7 0x75) =
          .ok a' ∧ a'.fields = [⟨.ascii8, [0x41, 0x42, 0x43, 0x75]⟩] := by
  refine ⟨⟨⟨1, 1, [⟨.ascii8, [0x41, 0x42, 0x43, 0x74]⟩], 0x74, 0x74⟩, 0⟩,
    ?_, rfl, rfl, rfl,
    ⟨⟨1, 1, [⟨.ascii8, [0x41, 0x42, 0x43, 0x75]⟩], 0x75, 0x74⟩, 0⟩, ?_, rfl⟩
  · cbv
  · cbv

end Baseboard.Fru
