/-
Path attributes on the wire: flags, type, a length in one octet or two, and the value. The body of the loop of
`bgp_attr_parse` reads the header and then calls the handler of the type; here it is split at that point, and
the loop is run over attributes that are taken one after the other.
-/
import Tarpan.Bgpd.Attr.Parse

namespace Tarpan.Bgpd

open Base Lib AttrParser Option Function List

variable {σ : Type}

/-! ## The header -/

def attrHeaderError (err : UpdateErr) : AttrParser σ (Option (BgpAttrParserArgs × Nat)) := do
  notify err []
  return none

/-- The body of the loop up to the check of the flags: the arguments of the handler and the end of the attribute,
or nothing where `bgp_attr_parse` returns. -/
def attrHeader (endp : Nat) : AttrParser σ (Option (BgpAttrParserArgs × Nat)) := do
  let startp ← getp
  if endp - startp < 3 then attrHeaderError .attrLengErr
  else
    let flag := 0xf0 &&& (← getc)
    let type ← getc
    if checkFlag flag bgpAttrFlagExtlen && decide (endp - startp < 4) then attrHeaderError .attrLengErr
    else
      let length ← attrLength flag
      if (← get).seen type then attrHeaderError .malAttr
      else
        modify fun st => { st with seen := update st.seen type true }
        let attrEndp := (← getp) + length
        if attrEndp > endp then attrHeaderError .attrLengErr
        else return some (⟨length, type, flag, startp, attrEndp - startp⟩, attrEndp)

variable (env : ParserEnv σ)

theorem bgpAttrStep_eq (endp : Nat) : bgpAttrStep env endp = attrHeader endp >>= fun header =>
      match header with
      | none => return some .error
      | some (args, attrEndp) => bgpAttrBody env args attrEndp := by
  funext st
  unfold bgpAttrStep attrHeader
  simp only [bind_run, getp_run, bind_some]
  split
  · rfl
  simp only [bind_run, bind_assoc]
  refine bind_congr fun r _ => bind_congr fun r' _ => ?_
  split
  · rfl
  simp only [bind_run, bind_assoc]
  refine bind_congr fun r'' _ => ?_
  simp only [get_run, bind_some]
  split
  · rfl
  simp only [bind_run, modify_run, getp_run, bind_some]
  split <;> rfl

/-! ## Attributes on the wire -/

/-- An attribute as it is written. -/
structure Tlv where
  flags : UInt8
  type : UInt8
  value : List UInt8

namespace Tlv

def extlen (t : Tlv) : Bool := checkFlag t.flags bgpAttrFlagExtlen
def lengthOctets (t : Tlv) : List UInt8 := beBytes (if t.extlen then 2 else 1) t.value.length
def header (t : Tlv) : List UInt8 := t.flags :: t.type :: t.lengthOctets
def wire (t : Tlv) : List UInt8 := t.header ++ t.value

/-- The lower four bits of the flags are not used, and the value fits the length field. -/
structure WellFormed (t : Tlv) : Prop where
  flags : 0xf0 &&& t.flags = t.flags
  length : t.value.length < if t.extlen then 65536 else 256

/-- The arguments with which the handler is called where the attribute begins at `startp`. -/
def args (t : Tlv) (startp : Nat) : BgpAttrParserArgs := ⟨t.value.length, t.type, t.flags, startp, t.wire.length⟩

@[simp] theorem header_length (t : Tlv) : t.header.length = 2 + if t.extlen then 2 else 1 := by
  simp only [header, lengthOctets, length_cons, beBytes_length]
  omega

@[simp] theorem wire_length (t : Tlv) : t.wire.length = t.header.length + t.value.length := length_append

theorem wire_length_ge (t : Tlv) : 3 ≤ t.wire.length := by
  rw [wire_length, header_length]
  split <;> omega

theorem wire_short {t : Tlv} (h : t.extlen = false) :
    t.wire = [t.flags, t.type, UInt8.ofNat t.value.length] ++ t.value := by
  simp [wire, header, lengthOctets, h, beBytes]

theorem wire_long {t : Tlv} (h : t.extlen = true) :
    t.wire = t.flags :: t.type :: beBytes 2 t.value.length ++ t.value := by
  simp [wire, header, lengthOctets, h]

end Tlv

section Run
variable {t : Tlv} {st : ParseState σ} {rest : List UInt8} {endp : Nat}

def ParseState.headed (st : ParseState σ) (t : Tlv) : ParseState σ :=
  { st with ibuf := st.ibuf.advance t.header.length, seen := update st.seen t.type true }

/-- The attribute comes next: it has not been met, and ends before `endp`. -/
structure Tlv.Comes (t : Tlv) (rest : List UInt8) (endp : Nat) (st : ParseState σ) : Prop where
  length : t.value.length < if t.extlen then 65536 else 256
  seen : st.seen t.type = false
  unread : st.ibuf.unread = t.wire ++ rest
  endp_le : st.ibuf.getp + t.wire.length ≤ endp

theorem checkFlag_masked (flags : UInt8) {flag : UInt8} (h : 0xf0 &&& flag = flag) :
    checkFlag (0xf0 &&& flags) flag = checkFlag flags flag := by
  rw [checkFlag, UInt8.and_comm 0xf0, UInt8.and_assoc, h, checkFlag]

theorem attrLength_tlv (hlen : t.value.length < if t.extlen then 65536 else 256)
    (hunr : st.ibuf.unread = t.lengthOctets ++ rest) :
    attrLength (0xf0 &&& t.flags) st =
      some (t.value.length, { st with ibuf := st.ibuf.advance (if t.extlen then 2 else 1) }) := by
  unfold attrLength
  unfold Tlv.lengthOctets at hunr
  rw [checkFlag_masked t.flags (by decide)]
  change (if t.extlen = true then _ else _ : AttrParser σ Nat) st = _
  cases hext : t.extlen with
  | true =>
    rw [hext] at hlen hunr
    have hw := UInt16.toNat_ofNat_of_lt' hlen
    rw [← hw] at hunr
    rw [if_pos rfl, run_bind (getw_run hunr), pure_run, hw]
    rfl
  | false =>
    rw [hext] at hlen hunr
    have hc := UInt8.toNat_ofNat_of_lt' hlen
    have hoctet : st.ibuf.unread = UInt8.ofNat t.value.length :: rest := by simpa [beBytes] using hunr
    rw [if_neg Bool.false_ne_true, run_bind (getc_run hoctet), pure_run, hc]
    rfl

theorem attrHeader_tlv (h : t.Comes rest endp st) :
    attrHeader endp st = some (some (⟨t.value.length, t.type, 0xf0 &&& t.flags, st.ibuf.getp, t.wire.length⟩,
      st.ibuf.getp + t.wire.length), st.headed t) := by
  have hunr := h.unread
  have hendp := h.endp_le
  have hread := le_readable hunr
  have hge := t.wire_length_ge
  have hunr1 : (st.ibuf.advance 1).unread = t.type :: (t.lengthOctets ++ (t.value ++ rest)) := by
    rw [unread_advance, hunr]
    simp [Tlv.wire, Tlv.header]
  have hunr2 : (st.ibuf.advance 2).unread = t.lengthOctets ++ (t.value ++ rest) := by
    rw [unread_advance, hunr]
    simp [Tlv.wire, Tlv.header]
  have hgetp : (st.ibuf.advance t.header.length).getp = st.ibuf.getp + t.header.length :=
    advance_getp (by rw [Tlv.wire_length] at hread; omega)
  have hext : (checkFlag (0xf0 &&& t.flags) bgpAttrFlagExtlen && decide (endp - st.ibuf.getp < 4)) = false := by
    rw [checkFlag_masked t.flags (by decide)]
    change (t.extlen && _) = false
    cases hx : t.extlen with
    | false => rfl
    | true =>
      rw [Tlv.wire_length, Tlv.header_length, hx, if_pos rfl] at hendp
      simp only [Bool.true_and, decide_eq_false_iff_not]
      omega
  unfold attrHeader
  simp only [run_bind (getp_run _)]
  rw [if_neg (by omega)]
  simp only [bind_run]
  rw [getc_run (show st.ibuf.unread = t.flags :: (t.type :: t.lengthOctets ++ t.value ++ rest) from hunr)]
  simp only [bind_some]
  rw [getc_run hunr1]
  simp only [bind_some, advance_advance]
  rw [hext, if_neg Bool.false_ne_true]
  simp only [bind_run]
  rw [attrLength_tlv h.length hunr2]
  simp only [get_run, bind_some, h.seen, Bool.false_eq_true, if_false, bind_run, modify_run, getp_run, advance_advance]
  rw [← Tlv.header_length, hgetp, if_neg (by rw [Tlv.wire_length] at hendp; omega)]
  rw [Nat.add_assoc, ← Tlv.wire_length, Nat.add_sub_cancel_left]
  rfl

/-- The body of the loop is that of the handler, with the arguments for it. -/
theorem bgpAttrStep_comes (h : t.Comes rest endp st) : bgpAttrStep env endp st =
    bgpAttrBody env ⟨t.value.length, t.type, 0xf0 &&& t.flags, st.ibuf.getp, t.wire.length⟩
      (st.ibuf.getp + t.wire.length) (st.headed t) := by
  rw [bgpAttrStep_eq, bind_run, attrHeader_tlv h]
  rfl

theorem bgpAttrStep_tlv (ht : t.WellFormed) (h : t.Comes rest endp st) :
    bgpAttrStep env endp st = bgpAttrBody env (t.args st.ibuf.getp) (st.ibuf.getp + t.wire.length) (st.headed t) := by
  rw [bgpAttrStep_comes env h, ht.flags]
  rfl

theorem headed_unread (hunr : st.ibuf.unread = t.wire ++ rest) : (st.headed t).ibuf.unread = t.value ++ rest := by
  unfold ParseState.headed
  rw [unread_advance, hunr, Tlv.wire, append_assoc, drop_left]

section Body
variable {env : ParserEnv σ} {args : BgpAttrParserArgs} {st' : ParseState σ} {ret : AttrParseRet}
  (hflags : bgpAttrFlagInvalid env args = false) (hhandle : bgpAttrHandle env args st = some (ret, st'))
include hflags hhandle

theorem bgpAttrBody_proceeds (hret : ret = .proceed) : bgpAttrBody env args st'.ibuf.getp st = some (none, st') := by
  subst hret
  unfold bgpAttrBody
  rw [hflags, if_neg Bool.false_ne_true, run_bind hhandle]
  dsimp only
  rw [run_bind (getp_run _), if_neg (not_not_intro rfl), pure_run]

theorem bgpAttrBody_refuses (hret : ret = .error ∨ ret = .errorNotifypls) (attrEndp : Nat) :
    ∃ st'', bgpAttrBody env args attrEndp st = some (some .error, st'') := by
  unfold bgpAttrBody
  rw [hflags, if_neg Bool.false_ne_true, bind_run, hhandle]
  rcases hret with rfl | rfl <;> exact ⟨_, rfl⟩

end Body

/-- The body of the loop takes an attribute where the flags are right and the handler reads it to its end. -/
theorem bgpAttrStep_taken {st' : ParseState σ} (ht : t.WellFormed) (hseen : st.seen t.type = false)
    (hunr : st.ibuf.unread = t.wire ++ rest) (hendp : st.ibuf.getp + t.wire.length ≤ endp)
    (hflags : bgpAttrFlagInvalid env (t.args st.ibuf.getp) = false)
    (hhandle : bgpAttrHandle env (t.args st.ibuf.getp) (st.headed t) = some (.proceed, st'))
    (hgetp : st'.ibuf.getp = st.ibuf.getp + t.wire.length) : bgpAttrStep env endp st = some (none, st') := by
  rw [bgpAttrStep_tlv env ht ⟨ht.length, hseen, hunr, hendp⟩, ← hgetp]
  exact bgpAttrBody_proceeds hflags hhandle rfl

end Run

/-! ## The loop -/

/-- The loop of `bgp_attr_parse` takes `n` attributes. -/
inductive AttrSteps (env : ParserEnv σ) (endp : Nat) : Nat → ParseState σ → ParseState σ → Prop
  | refl (st : ParseState σ) : AttrSteps env endp 0 st st
  | step {n : Nat} {st st' st'' : ParseState σ} (hlt : st.ibuf.getp < endp)
      (hstep : bgpAttrStep env endp st = some (none, st')) (hrest : AttrSteps env endp n st' st'') :
    AttrSteps env endp (n + 1) st st''

namespace AttrSteps

variable {env : ParserEnv σ} {endp n m : Nat} {st st' st'' : ParseState σ}

section
variable (h : AttrSteps env endp n st st')
include h

theorem loop (turns : Nat) : bgpAttrLoop env endp (n + turns) st = bgpAttrLoop env endp turns st' := by
  induction h with
  | refl st => rw [Nat.zero_add]
  | step hlt hstep _ ih =>
    rw [Nat.add_right_comm, bgpAttrLoop, run_bind (getp_run _), if_pos hlt, bind_run, hstep]
    exact ih

/-- The loop returns in the turn after these. -/
theorem loop_returns (hlt : st'.ibuf.getp < endp) {ret : AttrParseRet}
    (hstep : bgpAttrStep env endp st' = some (some ret, st'')) {turns : Nat} (hturns : n < turns) :
    bgpAttrLoop env endp turns st = some (some ret, st'') := by
  obtain ⟨k, rfl⟩ := Nat.exists_eq_add_of_lt hturns
  rw [Nat.add_assoc, h.loop, bgpAttrLoop, run_bind (getp_run _), if_pos hlt, bind_run, hstep]
  rfl

/-- The loop ends after these. -/
theorem loop_ends (hend : st'.ibuf.getp = endp) {turns : Nat} (hturns : n ≤ turns) :
    bgpAttrLoop env endp turns st = some (none, st') := by
  obtain ⟨k, rfl⟩ := Nat.exists_eq_add_of_le hturns
  rw [h.loop]
  cases k <;> rw [bgpAttrLoop, run_bind (getp_run _), if_neg (by omega)] <;> rfl

end

end AttrSteps

end Tarpan.Bgpd
