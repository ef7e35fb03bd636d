import ToolsCxx.Logging.Format

/-! # `LogPrint`: the steps of `vprintf`

The loop of `vprintf` takes the format item by item: as long as there is room it appends the text of
the item (`vprintf_item`), and it reads past the terminator if and only if it comes to an unfinished
directive (`vprintf_unfinished`). Nothing else goes wrong than the arguments do: the array of
`printf_num` is long enough (`numString_eq`). All this is the same for every sink. -/

namespace ToolsCxx.Logging.Steps

open ToolsCxx.Lib.Sinks ToolsCxx.Lib.Numerals
open ToolsCxx.Logging.Print ToolsCxx.Logging.Format

/-! ### `printf_num` -/

section
variable {b : ℕ} {digit : BitVec 64 → Char} {next : BitVec 64 → BitVec 64} {digit' : ℕ → Char}
  (hdigit : ∀ n, digit n = digit' (n.toNat % b)) (hnext : ∀ n, (next n).toNat = n.toNat / b)
include hdigit hnext

/-- The last digit. -/
theorem digitLoop_of_lt {n : BitVec 64} {last : List Char} (hn : n.toNat < b)
    (hlast : last.length < 31) :
    digitLoop digit next n last = .ok (numeral b digit' n.toNat ++ last) := by
  have hzero : next n = 0 := BitVec.eq_of_toNat_eq (by rw [hnext, Nat.div_eq_of_lt hn]; rfl)
  unfold digitLoop
  rw [if_pos hlast, numeral_of_lt hn, hdigit, Nat.mod_eq_of_lt hn]
  exact if_pos hzero

/-- A loop that writes at most `k + 1` digits. -/
theorem digitLoop_eq {k : ℕ} (hb : 2 ≤ b) {n : BitVec 64} {last : List Char}
    (hn : n.toNat < b ^ (k + 1)) (hk : last.length + k < 31) :
    digitLoop digit next n last = .ok (numeral b digit' n.toNat ++ last) := by
  induction k generalizing n last with
  | zero => exact digitLoop_of_lt hdigit hnext (by simpa using hn) hk
  | succ k ih =>
    by_cases hlt : n.toNat < b
    · exact digitLoop_of_lt hdigit hnext hlt (by omega)
    · have hne : next n ≠ 0 := fun h => by
        have hdiv : n.toNat / b = 0 := by rw [← hnext, h]; rfl
        rcases Nat.div_eq_zero_iff.mp hdiv with h0 | h0
        · omega
        · exact hlt h0
      have hsmall : (next n).toNat < b ^ (k + 1) := by
        rw [hnext]
        exact Nat.div_lt_of_lt_mul (by rw [← Nat.pow_succ']; exact hn)
      unfold digitLoop
      rw [if_pos (by omega)]
      simp only [if_neg hne]
      rw [ih hsmall (by rw [List.length_cons]; omega), hnext, hdigit,
        numeral_of_le (n := n.toNat) hb (by omega), List.append_assoc]
      rfl

end

theorem toNat_and_15 (n : BitVec 64) : (n &&& 0xf).toNat = n.toNat % 16 :=
  (BitVec.toNat_and ..).trans (Nat.and_two_pow_sub_one_eq_mod n.toNat 4)

theorem toNat_shift_4 (n : BitVec 64) : (n >>> 4).toNat = n.toNat / 16 :=
  (BitVec.toNat_ushiftRight ..).trans (Nat.shiftRight_eq_div_pow n.toNat 4)

/-- **The array is long enough**: every number of 64 bits has at most 20 digits. -/
theorem numString_eq (n : BitVec 64) (hex : HexFlag) :
    numString n hex = .ok (numeral (base hex) (digit hex) n.toNat) := by
  have hlt := n.isLt
  unfold numString
  cases hex with
  | no =>
    refine (digitLoop_eq (b := 10) (k := 19) (fun n => ?_) (fun n => ?_) (by decide)
      (by omega) (by decide)).trans (by rw [List.append_nil]; rfl)
    · exact congrArg (fun k => Char.ofNat (k + 48)) (BitVec.toNat_umod ..)
    · exact BitVec.toNat_udiv ..
  | lower =>
    refine (digitLoop_eq (b := 16) (k := 15) (fun n => ?_) toNat_shift_4 (by decide)
      (by omega) (by decide)).trans (by rw [List.append_nil]; rfl)
    exact congrArg (fun k => hexArray.getD k '\x00') (toNat_and_15 n)
  | upper =>
    refine (digitLoop_eq (b := 16) (k := 15) (fun n => ?_) toNat_shift_4 (by decide)
      (by omega) (by decide)).trans (by rw [List.append_nil]; rfl)
    exact congrArg (fun k => HEXArray.getD k '\x00') (toNat_and_15 n)

theorem base_pos (hex : HexFlag) : 2 ≤ base hex := by cases hex <;> decide

/-- At most 20 characters. -/
theorem length_numeral_le_20 (n : BitVec 64) (hex : HexFlag) :
    (numeral (base hex) (digit hex) n.toNat).length ≤ 20 := by
  have hlt := n.isLt
  refine length_numeral_le (k := 19) (base_pos hex) (hlt.trans_le ?_)
  cases hex <;> decide

section
variable {B : Type} [Sink B Char] [LawfulSink B Char]

theorem padLoop_eq (padding : Char) (len width : BitVec 8) (b : B) :
    padLoop padding len width b =
      write (List.replicate (width.toNat - len.toNat) padding) b := by
  fun_induction padLoop padding len width b with
  | case1 len b h ih =>
    have hnext : width.toNat - len.toNat = (width.toNat - (len + 1).toNat) + 1 := by bv_omega
    rw [ih, hnext, List.replicate_succ, writeOne_eq, write_write]
    rfl
  | case2 len b h =>
    have hle : width.toNat - len.toNat = 0 := by bv_omega
    rw [hle, List.replicate_zero, write_nil]

/-- **`printf_num`** appends the numeral in its field. -/
theorem printfNum_eq (n : BitVec 64) (hex : HexFlag) (padding : Char) (width : BitVec 8) (b : B) :
    printfNum n hex padding width b =
      .ok (write (padLeft width.toNat padding (numeral (base hex) (digit hex) n.toNat)) b) := by
  have hlen : (BitVec.ofNat 8 (numeral (base hex) (digit hex) n.toNat).length).toNat =
      (numeral (base hex) (digit hex) n.toNat).length := by
    have := length_numeral_le_20 n hex
    rw [BitVec.toNat_ofNat]
    exact Nat.mod_eq_of_lt (by omega)
  unfold printfNum padLeft
  rw [numString_eq]
  show Except.ok (write _ (padLoop _ _ _ _)) = _
  rw [padLoop_eq, hlen, write_write]

/-! ### What a conversion does to the state -/

section
variable {D : Type} (s : State B D)

theorem appendChar_eq (c : Char) : s.appendChar c = s.append [c] := by
  unfold State.appendChar State.append
  rw [writeOne_eq]

theorem append_append (t t' : List Char) : (s.append t).append t' = s.append (t ++ t') := by
  simp only [State.append, write_write]

omit [LawfulSink B Char] in
theorem append_note (p : Bool) (t : List Char) : (s.note p).append t = (s.append t).note p := rfl

omit [Sink B Char] [LawfulSink B Char] in
theorem note_false : s.note false = s := by
  unfold State.note
  rw [Bool.or_false]

end

/-! ### Conversions -/

theorem toNat_neg_of_slt {v : BitVec 64} (h : v.slt 0 = true) :
    (-v).toNat = v.toInt.natAbs ∧ v.toInt < 0 := by
  have hlt := v.isLt
  have hneg : v.toInt < 0 := by simpa [BitVec.slt] using h
  rw [BitVec.toNat_neg]
  rw [BitVec.toInt_eq_toNat_cond] at hneg ⊢
  split_ifs at hneg ⊢ <;> omega

theorem toNat_of_not_slt {v : BitVec 64} (h : ¬ v.slt 0 = true) :
    v.toNat = v.toInt.natAbs ∧ ¬ v.toInt < 0 := by
  have hlt := v.isLt
  have hneg : ¬ v.toInt < 0 := by simpa [BitVec.slt] using h
  rw [BitVec.toInt_eq_toNat_cond] at hneg ⊢
  split_ifs at hneg ⊢ <;> omega

section
variable {D : Type} {s : State B D}

theorem printNumber_eq (d : Directive) (n : BitVec 64) (s : State B D) :
    printNumber d n s = .ok (s.append (field d n.toNat)) := by
  unfold printNumber
  rw [printfNum_eq]
  rfl

theorem printSigned_eq (d : Directive) (v : BitVec 64) (s : State B D) :
    printSigned d v s = .ok ((s.append (signedField d v.toInt)).note (v == BitVec.intMin 64)) := by
  unfold printSigned signedField
  split_ifs with hneg hsign hsign
  · rw [printNumber_eq, (toNat_neg_of_slt hneg).1, append_note, appendChar_eq, append_append]
  · exact absurd (toNat_neg_of_slt hneg).2 hsign
  · exact absurd hsign (toNat_of_not_slt hneg).2
  · have hmin : (v == BitVec.intMin 64) = false := beq_false_of_ne fun h => hneg (by rw [h]; decide)
    rw [printNumber_eq, (toNat_of_not_slt hneg).1, hmin, note_false, List.nil_append]

variable [Double D]

theorem printDouble_eq (d : Directive) (fn : D) (s : State B D) :
    printDouble d fn s = .ok ((s.append (fixed d (splitDouble fn d.fracWidth))).note
      (!Double.inRange fn || !Double.inRange (scaled fn d.fracWidth))) := by
  unfold printDouble fixed
  simp only [printNumber_eq, bind, Except.bind, append_note, appendChar_eq, append_append]

theorem argType_some {c : Char} {t : ArgType} (h : argType c = some t) :
    ((c = 'b' ∨ c = 'c' ∨ c = 'd') ∧ t = .int) ∨ (c = 'f' ∧ t = .double) ∨
      (c = 'l' ∧ t = .long) ∨ (c = 'p' ∧ t = .pointer) ∨ (c = 's' ∧ t = .string) := by
  unfold argType at h
  split at h <;> simp_all

/-- A conversion without argument stands for itself. -/
theorem convert_none {d : Directive} {c : Char} (h : argType c = none) :
    convert d c s = .ok (s.append [c]) := by
  unfold convert
  split
  all_goals first
    | exact congrArg Except.ok (appendChar_eq _ _)
    | cases h

omit [Double D] [LawfulSink B Char] [Sink B Char] in
theorem vaArg_fault {α : Type} {select : Arg D → Option α}
    (h : ∀ a A, s.args = a :: A → select a = none) : vaArg select s = .error .argument := by
  unfold vaArg
  split
  · rfl
  · next a A hA => rw [h a A hA]

omit [LawfulSink B Char] in
/-- The argument is missing, or of another type. -/
theorem convert_fault {d : Directive} {c : Char} {t : ArgType} (h : argType c = some t)
    (ha : ∀ a A, s.args = a :: A → a.type ≠ t) : convert d c s = .error .argument := by
  have hfault : ∀ {α : Type} (select : Arg D → Option α),
      (∀ a, a.type ≠ t → select a = none) → vaArg select s = .error .argument :=
    fun select hs => vaArg_fault fun a A hA => hs a (ha a A hA)
  rcases argType_some h with ⟨rfl | rfl | rfl, rfl⟩ | ⟨rfl, rfl⟩ | ⟨rfl, rfl⟩ | ⟨rfl, rfl⟩ |
    ⟨rfl, rfl⟩
  all_goals
    simp only [convert]
    rw [hfault _ fun a => by cases a <;> simp [Arg.type, Arg.asInt, Arg.asLong, Arg.asDouble,
      Arg.asPointer, Arg.asString]]
    rfl

omit [Double D] in
/-- An integer of 64 bits, signed or not. -/
theorem printLong_eq (d : Directive) (v : BitVec 64) (s : State B D) :
    (if d.sign then printSigned d v s else printNumber d v s) =
      .ok ((s.append (integer d v)).note (d.sign && v == BitVec.intMin 64)) := by
  unfold integer
  split_ifs with hsign
  · rw [printSigned_eq, hsign, Bool.true_and]
  · rw [printNumber_eq, Bool.eq_false_iff.mpr hsign, Bool.false_and, note_false]

omit [Double D] in
/-- One of 32 bits: its opposite always has 64. -/
theorem printInt_eq (d : Directive) (v : BitVec 32) (s : State B D) :
    (if d.sign then printSigned d (v.signExtend 64) s else printNumber d (v.setWidth 64) s) =
      .ok (s.append (integer d v)) := by
  have hint : (v.signExtend 64).toInt = v.toInt := BitVec.toInt_signExtend_of_le (by decide)
  have hnat : (v.setWidth 64).toNat = v.toNat := BitVec.toNat_setWidth_of_le (by decide)
  have hmin : (v.signExtend 64 == BitVec.intMin 64) = false := by
    refine beq_false_of_ne fun h => ?_
    have hle := v.le_toInt
    rw [← hint, h] at hle
    exact absurd hle (by decide)
  unfold integer
  split_ifs with hsign
  · rw [printSigned_eq, hint, hmin, note_false]
  · rw [printNumber_eq, hnat]

theorem printDouble_neg_eq (d : Directive) (fn : D) (s : State B D) :
    (if Double.isNeg fn then printDouble d (Double.neg fn) (s.appendChar '-')
      else printDouble d fn s) =
      .ok ((s.append (valueText d 'f' (.double fn))).note (noResult d (.double fn))) := by
  simp only [valueText, noResult]
  split_ifs with hneg
  · rw [printDouble_eq, appendChar_eq, append_append]
    rfl
  · rw [printDouble_eq]

/-- **A conversion** appends the text of its argument. -/
theorem convert_some {d : Directive} {c : Char} {a : Arg D} (h : argType c = some a.type) (b : B)
    (A : List (Arg D)) (u : Bool) :
    convert d c { buffer := b, args := a :: A, undefined := u } =
      .ok ((State.append (valueText d c a) { buffer := b, args := A, undefined := u }).note
        (noResult d a)) := by
  rcases argType_some h with ⟨rfl | rfl | rfl, ha⟩ | ⟨rfl, ha⟩ | ⟨rfl, ha⟩ | ⟨rfl, ha⟩ |
    ⟨rfl, ha⟩ <;> cases a <;> cases ha
  · exact congrArg Except.ok (note_false _).symm
  · exact congrArg Except.ok ((appendChar_eq _ _).trans (note_false _).symm)
  · exact (printInt_eq _ _ _).trans (congrArg Except.ok (note_false _).symm)
  · exact printDouble_neg_eq d _ _
  · exact printLong_eq d _ _
  · exact (printNumber_eq _ _ _).trans (congrArg Except.ok (note_false _).symm)
  · exact congrArg Except.ok (note_false _).symm

end

/-! ### The loop -/

/-- The flags do to every sink what they do to a text. -/
theorem flags_write (d : Directive) (t : List Char) (b : B) (fmt : List Char) :
    flags d (write t b) fmt =
      ((flags d t fmt).1, write (flags d t fmt).2.1 b, (flags d t fmt).2.2) := by
  induction d, t, fmt using flags.induct with
  | case1 d t => simp only [flags_nil]
  | case2 d t fmt ih => rw [flags_u, flags_u, ih]
  | case3 d t fmt _ ih => rw [flags_x, flags_x, write_write, ← write_list, ih]
  | case4 d t fmt _ _ ih => rw [flags_X, flags_X, write_write, ← write_list, ih]
  | case5 d t fmt _ _ _ ih => rw [flags_dot, flags_dot, ih]
  | case6 d t c fmt hu hx hX hdot =>
    rw [flags_other _ _ _ hu hx hX hdot, flags_other _ _ _ hu hx hX hdot]

theorem scan_eq (b : B) (fmt : List Char) :
    scan b fmt = ((scan ([] : List Char) fmt).1, write (scan ([] : List Char) fmt).2.1 b,
      (scan ([] : List Char) fmt).2.2) := by
  unfold scan
  rw [← flags_write, write_nil]

section
variable {D : Type} [Double D] {s : State B D}

omit [LawfulSink B Char] in
theorem vprintf_past : vprintf .past s = .error .overrun := by
  unfold vprintf; rfl

omit [LawfulSink B Char] in
theorem vprintf_nil : vprintf (.at []) s = .ok (.at [], s) := by
  unfold vprintf; rfl

omit [LawfulSink B Char] in
/-- The loop ends when there is no room. -/
theorem vprintf_full (F : List Char) (h : hasRoom s.buffer = false) :
    vprintf (.at F) s = .ok (.at F, s) := by
  cases F with
  | nil => exact vprintf_nil
  | cons c fmt =>
    unfold vprintf
    exact if_pos (.inr h)

theorem vprintf_literal {c : Char} (hnul : c ≠ '\x00') (hc : c ≠ '%') (fmt : List Char)
    (h : hasRoom s.buffer = true) :
    vprintf (.at (c :: fmt)) s = vprintf (.at fmt) (s.append [c]) := by
  conv_lhs => unfold vprintf
  rw [if_neg (by simp [hnul, h]), if_pos hc, appendChar_eq]

theorem vprintf_percent {fmt marks rest : List Char} {d : Directive}
    (hscan : scan ([] : List Char) fmt = (d, marks, rest)) (h : hasRoom s.buffer = true) :
    vprintf (.at ('%' :: fmt)) s =
      match convert d (deref rest) (s.append marks) with
      | .error e => .error e
      | .ok s' => vprintf (next rest) s' := by
  conv_lhs => unfold vprintf
  rw [if_neg (by simp [h]), if_neg (not_not.mpr rfl), scan_eq, hscan]
  rfl

theorem vprintf_convert {fmt marks rest : List Char} {d : Directive} {s' : State B D}
    (hscan : scan ([] : List Char) fmt = (d, marks, rest)) (h : hasRoom s.buffer = true)
    (hconvert : convert d (deref rest) (s.append marks) = .ok s') :
    vprintf (.at ('%' :: fmt)) s = vprintf (next rest) s' := by
  rw [vprintf_percent hscan h, hconvert]

/-- **An item** is taken. -/
theorem vprintf_item {F rest t : List Char} {it : Item} {A : List (Arg D)}
    (hF : item F = some (it, rest)) (h : hasRoom s.buffer = true)
    (ht : it.expand s.args = some (t, A)) :
    vprintf (.at F) s = vprintf (.at rest)
      { buffer := write t s.buffer, args := A,
        undefined := s.undefined || it.noResult s.args } := by
  rcases item_some hF with ⟨c, rfl, hnul, hc, rfl⟩ | ⟨fmt, d, marks, c, rfl, hscan, rfl⟩
  · cases ht
    rw [vprintf_literal hnul hc _ h, Item.noResult, Bool.or_false]
    rfl
  · simp only [Item.expand, Item.noResult] at ht ⊢
    cases hc : argType c with
    | none =>
      rw [hc] at ht
      cases ht
      rw [vprintf_convert hscan h (convert_none hc), append_append]
      simp only [Bool.or_false]
      rfl
    | some ty =>
      rw [hc] at ht
      obtain ⟨b, args, u⟩ := s
      cases args with
      | nil => cases ht
      | cons a args =>
        simp only at ht
        split_ifs at ht with ha
        cases ht
        rw [vprintf_convert hscan h (convert_some (hc.trans (congrArg some ha.symm)) _ A u),
          ← write_write]
        rfl

/-- Its argument is missing, or of another type. -/
theorem vprintf_item_fault {F rest : List Char} {it : Item} (hF : item F = some (it, rest))
    (h : hasRoom s.buffer = true) (ht : it.expand s.args = none) :
    vprintf (.at F) s = .error .argument := by
  rcases item_some hF with ⟨c, rfl, -, -, rfl⟩ | ⟨fmt, d, marks, c, rfl, hscan, rfl⟩
  · cases ht
  · simp only [Item.expand] at ht
    cases hc : argType c with
    | none =>
      rw [hc] at ht
      cases ht
    | some ty =>
      rw [hc] at ht
      have hfault : convert d (deref (c :: rest)) (s.append marks) = .error .argument := by
        refine convert_fault hc fun a A hA hty => ?_
        have hargs : s.args = a :: A := hA
        rw [hargs] at ht
        simp only [if_pos hty] at ht
        cases ht
      rw [vprintf_percent hscan h, hfault]

/-- **An unfinished directive**: the terminator is taken for a conversion. -/
theorem vprintf_unfinished {fmt marks : List Char} {d : Directive}
    (hscan : scan ([] : List Char) fmt = (d, marks, [])) (h : hasRoom s.buffer = true) :
    vprintf (.at ('%' :: fmt)) s = .error .overrun := by
  have hnone : convert d (deref []) (s.append marks) = .ok ((s.append marks).append ['\x00']) :=
    convert_none rfl
  rw [vprintf_convert hscan h hnone]
  exact vprintf_past

/-! ### Runs -/

/-- **A run**: the loop stops for want of room, or it comes to the rest of the format; either way
the whole text has been written, as far as there is room. -/
theorem vprintf_run (F : List Char) {R : List Char} {A : List (Arg D)}
    (h : expand (parse F).1 s.args = some (R, A)) :
    (∃ F' s', vprintf (.at F) s = .ok (.at F', s') ∧ s'.buffer = write R s.buffer ∧
      hasRoom s'.buffer = false) ∨
    ∃ u, vprintf (.at F) s =
      vprintf (.at (parse F).2) { buffer := write R s.buffer, args := A, undefined := u } := by
  induction F using parse_induction generalizing s R with
  | hnone F hF =>
    rw [parse_of_none hF] at h ⊢
    cases h
    exact .inr ⟨s.undefined, by rw [write_nil]⟩
  | hsome F it rest hF ih =>
    cases hroom : hasRoom s.buffer with
    | false => exact .inl ⟨F, s, vprintf_full F hroom, (write_of_full hroom R).symm, hroom⟩
    | true =>
      rw [parse_of_some hF] at h ⊢
      simp only [expand] at h
      cases hit : it.expand s.args with
      | none =>
        rw [hit] at h
        cases h
      | some r =>
        obtain ⟨t, A₁⟩ := r
        rw [hit] at h
        obtain ⟨⟨R₁, A'⟩, hrest, heq⟩ := Option.map_eq_some_iff.mp h
        obtain ⟨rfl, rfl⟩ := Prod.mk.inj heq
        rw [vprintf_item hF hroom hit, ← write_write]
        exact ih hrest

/-- The arguments do not fit: the loop stops for want of room, or at the first that does not. -/
theorem vprintf_run_fault (F : List Char) (h : expand (parse F).1 s.args = none) :
    (∃ F' s', vprintf (.at F) s = .ok (.at F', s') ∧ hasRoom s'.buffer = false) ∨
    vprintf (.at F) s = .error .argument := by
  induction F using parse_induction generalizing s with
  | hnone F hF =>
    rw [parse_of_none hF] at h
    cases h
  | hsome F it rest hF ih =>
    cases hroom : hasRoom s.buffer with
    | false => exact .inl ⟨F, s, vprintf_full F hroom, hroom⟩
    | true =>
      rw [parse_of_some hF] at h
      simp only [expand] at h
      cases hit : it.expand s.args with
      | none => exact .inr (vprintf_item_fault hF hroom hit)
      | some r =>
        obtain ⟨t, A₁⟩ := r
        rw [hit] at h
        rw [vprintf_item hF hroom hit]
        exact ih (Option.map_eq_none_iff.mp h)

/-- A complete format is taken to its end, or as far as there is room. -/
theorem vprintf_complete {F : CString} (hF : Complete F) {R : List Char} {A : List (Arg D)}
    (h : expand (parse F.text).1 s.args = some (R, A)) :
    ∃ p s', vprintf (.at F.text) s = .ok (p, s') ∧ s'.buffer = write R s.buffer := by
  rcases vprintf_run F.text h with ⟨F', s', hs', hbuffer, -⟩ | ⟨u, hu⟩
  · exact ⟨_, s', hs', hbuffer⟩
  · rw [show (parse F.text).2 = [] from hF, vprintf_nil] at hu
    exact ⟨_, _, hu, rfl⟩

end

end

end ToolsCxx.Logging.Steps
