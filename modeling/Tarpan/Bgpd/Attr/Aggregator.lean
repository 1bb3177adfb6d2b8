/-
AGGREGATOR and AS4_AGGREGATOR of a peer without the AS4 capability: what the loop of `bgp_attr_parse` keeps of them, and
what `bgp_attr_munge_as4_attrs` makes of that. Where AGGREGATOR is missing, only the number of AS4_AGGREGATOR is taken
over, and the address is what it was.
-/
import Tarpan.Bgpd.Attr.Passing

namespace Tarpan.Bgpd

open Base Lib AttrParser List Option Bool ParseState

/-- An AS4_AGGREGATOR, or an AGGREGATOR with a number of two octets, with flags that pass the check. -/
structure AggregatorAttr where
  as4 : Bool
  flags : UInt8
  as : UInt32
  addr : UInt32
  number : wireAsn as4 as = as
  valid : flags ∈ [0xc0, 0xd0, 0xe0, 0xf0]

open AggregatorAttr

variable {σ : Type} {env : ParserEnv σ} {st : ParseState σ} {endp : Nat} {rest : List UInt8}

namespace AggregatorAttr

def type (a : AggregatorAttr) : BgpAttr := if a.as4 then .as4Aggregator else .aggregator

def tlv (a : AggregatorAttr) : Tlv where
  flags := a.flags
  type := a.type.code
  value := asnBytes a.as4 a.as ++ beBytes 4 a.addr.toNat

variable (a : AggregatorAttr)

theorem value_length : a.tlv.value.length = if a.as4 then 8 else 6 := by
  unfold tlv
  cases a.as4 <;> rfl

theorem wellFormed : a.tlv.WellFormed := by
  constructor
  · have hvalid : ∀ flags ∈ ([0xc0, 0xd0, 0xe0, 0xf0] : List UInt8), 0xf0 &&& flags = flags := by decide +kernel
    exact hvalid a.flags a.valid
  · rw [a.value_length]
    cases a.as4 <;> cases a.tlv.extlen <;> decide

theorem flags_valid (env : ParserEnv σ) (startp : Nat) : bgpAttrFlagInvalid env (a.tlv.args startp) = false := by
  have htab : a.type.code.toNat ≤ attrFlagsValuesMax ∧ tableFlags env a.type = 0xc0 := by
    unfold type
    cases a.as4 <;> exact ⟨by decide, rfl⟩
  have hvalid : ∀ flags ∈ ([0xc0, 0xd0, 0xe0, 0xf0] : List UInt8), flagsConflict 0xc0 flags = false := by decide +kernel
  refine (bgpAttrFlagInvalid_eq env a.type _ a.flags _ _).trans ?_
  rw [if_neg (Nat.not_lt.2 htab.1), htab.2]
  exact hvalid a.flags a.valid

/-- What the handler leaves. -/
def kept (a : AggregatorAttr) (st : ParseState σ) : ParseState σ :=
  { st.headed a.tlv with
    ibuf := st.ibuf.advance a.tlv.wire.length
    attr := { st.attr with
      extra := if a.as4 then st.attr.extra
        else some { st.attr.extra.getD {} with aggregatorAs := a.as, aggregatorAddr := a.addr }
      flag := st.attr.flag ||| a.type.flagBit }
    as4Aggregator := if a.as4 then a.as else st.as4Aggregator
    as4AggregatorAddr := if a.as4 then a.addr else st.as4AggregatorAddr }

theorem kept_has (st : ParseState σ) (k : BgpAttr) :
    (a.kept st).attr.has k = (st.attr.has k || decide (k = a.type)) := has_setFlag rfl k

theorem handle_kept (hcap : env.peer.cap .as4Rcv = false) (hextra : st.attr.extra.isSome) (a : AggregatorAttr)
    (hunr : st.ibuf.unread = a.tlv.wire ++ rest) :
    bgpAttrHandle env (a.tlv.args st.ibuf.getp) (st.headed a.tlv) = some (.proceed, a.kept st) := by
  have hval : (st.headed a.tlv).ibuf.unread = asnBytes a.as4 a.as ++ (beBytes 4 a.addr.toNat ++ rest) := by
    rw [headed_unread hunr, ← append_assoc]
    rfl
  have hasn := asnGet_eq hval
  rw [a.number] at hasn
  have haddr : ((st.headed a.tlv).ibuf.advance (if a.as4 then 4 else 2)).unread = beBytes 4 a.addr.toNat ++ rest := by
    rw [unread_advance, hval]
    refine drop_left' ?_
    cases a.as4 <;> rfl
  have hextra : (st.headed a.tlv).attr.extra.isSome := hextra
  have hibuf : st.ibuf.advance a.tlv.wire.length = (st.headed a.tlv).ibuf.advance (if a.as4 then 8 else 6) := by
    rw [← a.value_length, headed, advance_advance, Tlv.wire_length]
  have hlength : (a.tlv.args st.ibuf.getp).length = if a.as4 then 8 else 6 := a.value_length
  have hhandle : bgpAttrHandle env (a.tlv.args st.ibuf.getp) = if a.as4 then
      bgpAttrAs4Aggregator env (a.tlv.args st.ibuf.getp) else bgpAttrAggregator env (a.tlv.args st.ibuf.getp) := by
    unfold tlv type
    cases a.as4 <;> rfl
  unfold kept type
  rw [hibuf]
  cases has4 : a.as4 with
  | false =>
    rw [has4] at hasn haddr hlength
    rw [hhandle, has4, if_neg Bool.false_ne_true]
    unfold bgpAttrAggregator
    rw [hcap, run_bind (modifyExtra_id hextra), if_neg (not_not_intro hlength), run_bind (read_run hasn),
      run_bind (getIpv4_run haddr), run_bind (modifyExtra_run ..)]
    simp only [advance_advance]
    rfl
  | true =>
    rw [has4] at hasn haddr hlength
    have hgetl : streamGetl (st.headed a.tlv).ibuf = some (a.as, (st.headed a.tlv).ibuf.advance 4) := hasn
    rw [if_pos rfl] at hlength
    rw [hhandle, has4, if_pos rfl]
    unfold bgpAttrAs4Aggregator getl
    rw [if_neg (not_not_intro hlength), run_bind (read_run hgetl), run_bind (getIpv4_run haddr),
      run_bind (modify_run ..)]
    simp only [advance_advance]
    rfl

end AggregatorAttr

/-! ## The loop -/

/-- What the loop keeps of the two attributes. -/
structure AggregatorData where
  has : Bool
  has4 : Bool
  as : UInt32
  addr : UInt32
  as4 : UInt32
  addr4 : UInt32

def ParseState.aggregatorData (st : ParseState σ) (extra : AttrExtra) : AggregatorData :=
  ⟨st.attr.has .aggregator, st.attr.has .as4Aggregator, extra.aggregatorAs, extra.aggregatorAddr, st.as4Aggregator,
    st.as4AggregatorAddr⟩

def ParseState.Holds (st : ParseState σ) (d : AggregatorData) : Prop :=
  ∃ extra, st.attr.extra = some extra ∧ st.aggregatorData extra = d

def AggregatorAttr.put (d : AggregatorData) (a : AggregatorAttr) : AggregatorData :=
  if a.as4 then { d with has4 := true, as4 := a.as, addr4 := a.addr }
  else { d with has := true, as := a.as, addr := a.addr }

variable {d : AggregatorData} {st' : ParseState σ}

theorem ParseState.Holds.kept (h : st.Holds d) (a : AggregatorAttr) : (a.kept st).Holds (a.put d) := by
  obtain ⟨extra, hextra, rfl⟩ := h
  have has4 : (a.kept st).as4Aggregator = if a.as4 then a.as else st.as4Aggregator := rfl
  have haddr4 : (a.kept st).as4AggregatorAddr = if a.as4 then a.addr else st.as4AggregatorAddr := rfl
  unfold ParseState.Holds aggregatorData put
  rw [a.kept_has, a.kept_has, has4, haddr4, AggregatorAttr.type]
  cases h4 : a.as4 with
  | false => exact ⟨{ extra with aggregatorAs := a.as, aggregatorAddr := a.addr }, by simp [kept, h4, hextra], by simp⟩
  | true => exact ⟨extra, by simp [kept, h4, hextra], by simp⟩

theorem ParseState.Holds.passes {type : UInt8} (h : st.Holds d) (hpass : Passes type st st') : st'.Holds d := by
  obtain ⟨extra, hextra, rfl⟩ := h
  obtain ⟨extra', hextra', has, haddr⟩ := hpass.attr.extra hextra
  refine ⟨extra', hextra', ?_⟩
  rw [aggregatorData, hpass.attr.has, hpass.attr.has4, has, haddr, hpass.as4.1, hpass.as4.2, aggregatorData]

/-- An attribute of the block: one of the two, or another. -/
inductive BlockAttr where
  | aggregator (a : AggregatorAttr)
  | other (t : Tlv)

namespace BlockAttr

def tlv : BlockAttr → Tlv
  | aggregator a => a.tlv
  | other t => t

def aggregator? : BlockAttr → Option AggregatorAttr
  | aggregator a => some a
  | other _ => none

end BlockAttr

/-- Another attribute than the two, which the loop reads to its end where it comes to it behind `st`. -/
structure Tlv.ReadBehind (env : ParserEnv σ) (endp : Nat) (st : ParseState σ) (t : Tlv) : Prop where
  length : t.value.length < if t.extlen then 65536 else 256
  type : t.type ≠ BgpAttr.aggregator.code ∧ t.type ≠ BgpAttr.as4Aggregator.code
  read : ∀ {n st1 rest}, AttrSteps env endp n st st1 → t.Comes rest endp st1 → ∃ st2,
    bgpAttrStep env endp st1 = some (none, st2) ∧ st2.ibuf.getp = st1.ibuf.getp + t.wire.length ∧ st2.ibuf.unread = rest

theorem Tlv.ReadBehind.step {t : Tlv} (h : t.ReadBehind env endp st) (hlt : st.ibuf.getp < endp)
    (hstep : bgpAttrStep env endp st = some (none, st')) : t.ReadBehind env endp st' :=
  ⟨h.length, h.type, fun hsteps => h.read (.step hlt hstep hsteps)⟩

/-- The attribute `b` is read: what stands behind it comes next. -/
structure BlockAttr.Read (env : ParserEnv σ) (endp : Nat) (rest : List UInt8) (b : BlockAttr) (d : AggregatorData)
    (st st' : ParseState σ) : Prop where
  step : bgpAttrStep env endp st = some (none, st')
  getp : st'.ibuf.getp = st.ibuf.getp + b.tlv.wire.length
  unread : st'.ibuf.unread = rest
  seen : st'.seen = Function.update st.seen b.tlv.type true
  holds : st'.Holds (b.aggregator?.elim d (·.put d))
  paths : PathsThere st'

theorem BlockAttr.read (hcap : env.peer.cap .as4Rcv = false) (b : BlockAttr) (hd : st.Holds d) (hpaths : PathsThere st)
    (hseen : st.seen b.tlv.type = false) (hunr : st.ibuf.unread = b.tlv.wire ++ rest)
    (hendp : st.ibuf.getp + b.tlv.wire.length ≤ endp) (hother : ∀ t, b = .other t → t.ReadBehind env endp st) :
    ∃ st', b.Read env endp rest d st st' := by
  cases b with
  | aggregator a =>
    have hextra : st.attr.extra.isSome := by
      obtain ⟨extra, hextra, -⟩ := hd
      rw [hextra]
      rfl
    have hgetp : (a.kept st).ibuf.getp = st.ibuf.getp + a.tlv.wire.length := advance_getp (le_readable hunr)
    have hhandle := a.handle_kept hcap hextra hunr
    refine ⟨a.kept st, bgpAttrStep_taken env a.wellFormed hseen hunr hendp (a.flags_valid env _) hhandle hgetp,
      hgetp, ?_,
      rfl, hd.kept a, ?_⟩
    · rw [AggregatorAttr.kept, unread_advance, hunr]
      exact drop_left
    · refine ⟨hpaths.aspath, fun hhas => hpaths.as4Path ?_⟩
      rw [a.kept_has, AggregatorAttr.type] at hhas
      revert hhas
      cases a.as4 <;> simp
  | other t =>
    have hread := hother t rfl
    have hcomes : t.Comes rest endp st := ⟨hread.length, hseen, hunr, hendp⟩
    obtain ⟨st', hstep, hgetp, hunr'⟩ := hread.read (.refl st) hcomes
    have hbody := hstep
    rw [bgpAttrStep_comes env hcomes] at hbody
    obtain ⟨hpass, hkeeps⟩ := bgpAttrBody_passes hread.type.1 hread.type.2 hbody
    exact ⟨st', hstep, hgetp, hunr', hpass.seen, (show (st.headed t).Holds d from hd).passes hpass,
      hkeeps ⟨hpaths.aspath, hpaths.as4Path⟩⟩

/-- The loop reads the block, where no attribute comes twice. -/
theorem bgpAttrLoop_block (hcap : env.peer.cap .as4Rcv = false) : ∀ (l : List BlockAttr) {st : ParseState σ}
    {d : AggregatorData}, st.Holds d → PathsThere st → (l.map (·.tlv.type)).Nodup →
    (∀ b ∈ l, st.seen b.tlv.type = false) →
    st.ibuf.unread = l.flatMap (·.tlv.wire) ++ rest → st.ibuf.getp + (l.flatMap (·.tlv.wire)).length = endp →
    (∀ t, .other t ∈ l → t.ReadBehind env endp st) →
    ∃ st', AttrSteps env endp l.length st st' ∧ st'.ibuf.getp = endp ∧
      st'.Holds ((l.filterMap (·.aggregator?)).foldl AggregatorAttr.put d) ∧ PathsThere st'
  | [], st, d, hd, hpaths, _, _, _, hendp, _ => ⟨st, .refl st, hendp, hd, hpaths⟩
  | b :: l, st, d, hd, hpaths, hnd, hseen, hunr, hendp, hother => by
    rw [flatMap_cons, append_assoc] at hunr
    rw [flatMap_cons, length_append] at hendp
    rw [map_cons, nodup_cons] at hnd
    have hlt := b.tlv.wire_length_ge
    obtain ⟨st1, hread⟩ := b.read hcap hd hpaths (hseen b mem_cons_self) hunr (by omega)
      fun t ht => hother t (ht ▸ mem_cons_self)
    have hseen1 : ∀ c ∈ l, st1.seen c.tlv.type = false := by
      intro c hc
      rw [hread.seen, Function.update_of_ne fun htype => hnd.1 (mem_map.2 ⟨c, hc, htype⟩)]
      exact hseen c (mem_cons_of_mem _ hc)
    obtain ⟨st', hsteps, hend, hholds, hpaths'⟩ :=
      bgpAttrLoop_block hcap l hread.holds hread.paths hnd.2 hseen1 hread.unread
      (by rw [hread.getp]; omega) fun t ht => (hother t (mem_cons_of_mem _ ht)).step (by omega) hread.step
    refine ⟨st', .step (by omega) hread.step hsteps, hend, ?_, hpaths'⟩
    cases b <;> exact hholds

/-- What should become of the two: AGGREGATOR, or AS4_AGGREGATOR where the number of the first is AS_TRANS. -/
def reconciledAggregator (agg agg4 : Option AggregatorAttr) : Option AttrValue :=
  let chosen := match agg with
    | none => agg4
    | some a => if a.as ≠ bgpAsTrans.toUInt32 then some a else some (agg4.getD a)
  chosen.map fun a => .aggregator a.as a.addr

/-- What `bgp_attr_munge_as4_attrs` makes of what is kept. -/
def AggregatorData.munged (d : AggregatorData) : Option AttrValue :=
  if d.has then
    if d.has4 ∧ d.as = bgpAsTrans.toUInt32 then some (.aggregator d.as4 d.addr4) else some (.aggregator d.as d.addr)
  else if d.has4 then some (.aggregator d.as4 d.addr) else none

variable {extra : AttrExtra}

theorem value_aggregator {attr : Attr} (content : TarpanAttr → Option TarpanMsg)
    (hextra : attr.extra = some extra) : attr.value content .aggregator =
      if attr.has .aggregator then some (.aggregator extra.aggregatorAs extra.aggregatorAddr) else none := by
  unfold Attr.value Attr.field
  rw [hextra]
  rfl

section
variable (hextra : st.attr.extra = some extra)
include hextra

theorem mungeAggregator_value : ∃ attr ignoreAs4Path, mungeAggregator st = some (attr, ignoreAs4Path) ∧
      attr.has .as4Path = st.attr.has .as4Path ∧
      ∀ content, attr.value content .aggregator = (st.aggregatorData extra).munged := by
  unfold mungeAggregator
  split
  · rename_i hhas4
    split_ifs with hhas
    · rw [hextra]
      dsimp only [bind_eq_bind, bind_some]
      split_ifs with htrans
      · refine ⟨_, _, rfl, rfl, fun content => ?_⟩
        simp [value_aggregator content hextra, AggregatorData.munged, aggregatorData, hhas, htrans]
      · refine ⟨_, _, rfl, rfl, fun content => (value_aggregator content rfl).trans ((if_pos hhas).trans ?_)⟩
        exact ((if_pos hhas).trans (if_pos ⟨hhas4, not_not.1 htrans⟩)).symm
    · have hset : ∀ attr : Attr, attr.flag = st.attr.flag ||| BgpAttr.aggregator.flagBit →
          attr.has .as4Path = st.attr.has .as4Path ∧ attr.has .aggregator = true := fun attr hflag =>
        ⟨(has_setFlag hflag _).trans (or_false _), (has_setFlag hflag _).trans (or_true _)⟩
      refine ⟨_, _, rfl, (hset _ rfl).1, fun content =>
        (value_aggregator content rfl).trans ((if_pos (hset _ rfl).2).trans ?_)⟩
      rw [hextra]
      exact ((if_neg hhas).trans (if_pos hhas4)).symm
  · rename_i hhas4
    refine ⟨_, _, rfl, rfl, fun content => ?_⟩
    simp [value_aggregator content hextra, AggregatorData.munged, aggregatorData, hhas4]

theorem bgpAttrMungeAs4Attrs_value (hcap : env.peer.cap .as4Rcv = false) (hpath : st.attr.aspath.isSome)
    (hpath4 : st.attr.has .as4Path = true → st.as4Path.isSome) :
    ∃ st', bgpAttrMungeAs4Attrs env st = some (.proceed, st') ∧
      ∀ content, st'.attr.value content .aggregator = (st.aggregatorData extra).munged := by
  obtain ⟨aspath, hasp⟩ := isSome_iff_exists.1 hpath
  obtain ⟨attr, ignoreAs4Path, hmunge, hhas, hval⟩ := mungeAggregator_value hextra
  unfold bgpAttrMungeAs4Attrs
  simp only [hasp, hcap, false_eq_true, if_false, hmunge, bind_eq_bind, bind_some]
  split_ifs with hset
  · rw [and_eq_true, hhas] at hset
    obtain ⟨as4Path, has4Path⟩ := isSome_iff_exists.1 (hpath4 hset.2)
    rw [has4Path, bind_some, aspathReconcileAs4_returns]
    exact ⟨_, rfl, hval⟩
  · exact ⟨_, rfl, hval⟩

end

/-- Either attribute, or both in either order. -/
theorem munged_put (hnone : d.has = false) (hnone4 : d.has4 = false) (l : List AggregatorAttr)
    (hl : (l.map (·.as4)).Nodup) :
    (l.foldl AggregatorAttr.put d).munged = reconciledAggregator (l.find? (!·.as4)) (l.find? (·.as4)) ↔
      (l.find? (!·.as4) = none → ∀ a ∈ l, a.addr = d.addr) := by
  match l with
  | [] => simp [AggregatorData.munged, reconciledAggregator, hnone, hnone4]
  | [a] =>
    cases has4 : a.as4 <;>
      simp [AggregatorData.munged, reconciledAggregator, put, has4, hnone, hnone4, eq_comm]
  | [a, b] =>
    cases has4 : a.as4 <;> cases hbs4 : b.as4 <;>
      simp [has4, hbs4, AggregatorData.munged, reconciledAggregator, put] at hl ⊢
    · split <;> rfl
    · split <;> rfl
  | a :: b :: c :: l =>
    have htwo : ∀ x y z : Bool, [x, y, z].Nodup → False := by decide
    have hthree : [a.as4, b.as4, c.as4] <+ (a :: b :: c :: l).map (·.as4) :=
      (((nil_sublist _).cons_cons _).cons_cons _).cons_cons _
    exact (htwo _ _ _ (hl.sublist hthree)).elim

/-- Of the two attributes each comes once at most. -/
theorem aggregators_nodup {l : List BlockAttr} (hl : (l.map (·.tlv.type)).Nodup) :
    ((l.filterMap (·.aggregator?)).map (·.as4)).Nodup := by
  have hsub : ∀ l : List BlockAttr, ((l.filterMap (·.aggregator?)).map (·.tlv.type)) <+ l.map (·.tlv.type) := by
    intro l
    induction l with
    | nil => exact .slnil
    | cons b l ih =>
      cases b with
      | aggregator a => exact ih.cons_cons _
      | other t => exact ih.cons _
  let code (as4 : Bool) : UInt8 := (if as4 then BgpAttr.as4Aggregator else .aggregator).code
  have hnd := hl.sublist (hsub l)
  rw [show (l.filterMap (·.aggregator?)).map (·.tlv.type) = ((l.filterMap (·.aggregator?)).map (·.as4)).map code by
    rw [List.map_map]; rfl] at hnd
  exact hnd.of_map _

/-- The aggregator of a peer without the AS4 capability is the one of the two attributes that it should be, wherever
they stand in the block, unless AS4_AGGREGATOR comes alone: then its address has to be the one that was kept already,
which is 0.0.0.0 in a new attribute set. -/
theorem aggregator_reconciled_iff (hcap : env.peer.cap .as4Rcv = false) {extra : AttrExtra}
    (hextra : st.attr.extra = some extra) (hnone : st.attr.has .aggregator = false)
    (hnone4 : st.attr.has .as4Aggregator = false) (hpath : st.attr.aspath.isSome)
    (hpath4 : st.attr.has .as4Path = true → st.as4Path.isSome) (l : List BlockAttr)
    (hl : (l.map (·.tlv.type)).Nodup) (hseen : ∀ b ∈ l, st.seen b.tlv.type = false)
    (hunread : st.ibuf.unread = l.flatMap (·.tlv.wire) ++ rest)
    (hother : ∀ t, .other t ∈ l → t.ReadBehind env (st.ibuf.getp + (l.flatMap (·.tlv.wire)).length) st) :
    ∃ st' st'', bgpAttrLoop env (st.ibuf.getp + (l.flatMap (·.tlv.wire)).length) l.length st = some (none, st') ∧
      bgpAttrMungeAs4Attrs env st' = some (.proceed, st'') ∧ ∀ content,
        (st''.attr.value content .aggregator = reconciledAggregator ((l.filterMap (·.aggregator?)).find? (!·.as4))
            ((l.filterMap (·.aggregator?)).find? (·.as4)) ↔
          ((l.filterMap (·.aggregator?)).find? (!·.as4) = none →
            ∀ a ∈ l.filterMap (·.aggregator?), a.addr = extra.aggregatorAddr)) := by
  obtain ⟨st', hsteps, hend, ⟨extra', hex', hdata⟩, hpaths⟩ :=
    bgpAttrLoop_block hcap l ⟨extra, hextra, rfl⟩ ⟨hpath, hpath4⟩ hl hseen hunread rfl hother
  obtain ⟨st'', hmunge, hval⟩ := bgpAttrMungeAs4Attrs_value hex' hcap hpaths.aspath hpaths.as4Path
  refine ⟨st', st'', hsteps.loop_ends hend le_rfl, hmunge, fun content => ?_⟩
  rw [hval, hdata]
  exact munged_put hnone hnone4 _ (aggregators_nodup hl)

/-- A new attribute set with an empty path, and the attributes to be read. -/
def aggregatorState (l : List BlockAttr) : ParseState Unit where
  ibuf := .full (l.flatMap (·.tlv.wire))
  speaker := sampleReceiver
  attr := { aspath := some [], extra := some {} }

def as4Aggregator70000 : AggregatorAttr := ⟨true, 0xc0, 70000, 0x0a000001, rfl, by decide⟩
def aggregatorTrans : AggregatorAttr := ⟨false, 0xc0, 23456, 0x0a000002, by decide, by decide⟩

/-- ORIGIN with the value IGP. -/
def originIgp : Tlv := ⟨0x40, BgpAttr.origin.code, [0]⟩

theorem originIgp_read (env : ParserEnv σ) (endp : Nat) (st : ParseState σ) : originIgp.ReadBehind env endp st := by
  refine ⟨by decide, by decide, fun {n st1 rest} _ hcomes => ?_⟩
  have hunr : (st1.headed originIgp).ibuf.unread = 0 :: rest := headed_unread hcomes.unread
  have hhandle : bgpAttrHandle env (originIgp.args st1.ibuf.getp) (st1.headed originIgp) = some (.proceed,
      { st1.headed originIgp with
        ibuf := (st1.headed originIgp).ibuf.advance 1
        attr := { st1.attr with origin := 0, flag := st1.attr.flag ||| BgpAttr.origin.flagBit } }) := by
    show (getc >>= _ : AttrParser σ AttrParseRet) _ = _
    rw [run_bind (getc_run hunr)]
    rfl
  have hadvance : (st1.headed originIgp).ibuf.advance 1 = st1.ibuf.advance originIgp.wire.length := advance_advance ..
  have hgetp : ((st1.headed originIgp).ibuf.advance 1).getp = st1.ibuf.getp + originIgp.wire.length := by
    rw [hadvance]
    exact advance_getp (le_readable hcomes.unread)
  have hflags := sentFlags_valid env (show BgpAttr.origin.code.toNat < attrFlagsValuesMax by decide)
    (.octet 0) st1.ibuf.getp
  refine ⟨_, bgpAttrStep_taken env ⟨by decide, by decide⟩ hcomes.seen hcomes.unread hcomes.endp_le hflags hhandle hgetp,
    hgetp, ?_⟩
  rw [unread_advance, hunr]
  rfl

/-- AS4_AGGREGATOR comes before the AGGREGATOR that it completes, with ORIGIN between them. -/
theorem aggregator_reconciled_completed : ∃ st' st'',
    bgpAttrLoop sampleEnv 24 3 (aggregatorState [.aggregator as4Aggregator70000, .other originIgp,
      .aggregator aggregatorTrans])
      = some (none, st') ∧ bgpAttrMungeAs4Attrs sampleEnv st' = some (.proceed, st'') ∧
      st''.attr.value (fun _ => none) .aggregator = some (.aggregator 70000 0x0a000001) := by
  obtain ⟨st', st'', hloop, hmunge, hiff⟩ := @aggregator_reconciled_iff Unit sampleEnv
    (aggregatorState [.aggregator as4Aggregator70000, .other originIgp, .aggregator aggregatorTrans]) [] rfl _ rfl
      (by decide)
    (by decide) rfl (by decide) [.aggregator as4Aggregator70000, .other originIgp,
      .aggregator aggregatorTrans] (by decide)
    (fun _ _ => rfl) (by decide) fun t ht => by
      obtain rfl : t = originIgp := by simpa using ht
      exact originIgp_read ..
  exact ⟨st', st'', hloop, hmunge, (hiff _).2 (by decide)⟩

/-- AS4_AGGREGATOR comes alone, and its address is lost. -/
theorem aggregator_without_address :
    ((bgpAttrLoop sampleEnv 11 1 (aggregatorState [.aggregator as4Aggregator70000])).bind fun r =>
      (bgpAttrMungeAs4Attrs sampleEnv r.2).map fun r => r.2.attr.value (fun _ => none) .aggregator) =
        some (some (.aggregator 70000 0)) ∧
    reconciledAggregator none (some as4Aggregator70000) = some (.aggregator 70000 0x0a000001) :=
  ⟨by decide, by decide⟩

end Tarpan.Bgpd
