/-
Safety of `bgp_attr_parse` on all octets: it returns, comes to no type twice, and reads inside the block of attributes
that the UPDATE declares. The Tarpan attribute is left out, for `bgp_attr_flag_invalid` reads behind its table for it,
and a message that cannot be unpacked ends the process.
-/
import Tarpan.Bgpd.Attr.Aggregator
import Tarpan.Bgpd.Attr.InBlock

namespace Tarpan.Bgpd

open Base Lib AttrParser List Option Function Bool Lockstep

variable {σ : Type}

/-! ## The header and the loop -/

section Loop
open ParseState (At Good)
variable {lo hi p attrEndp : Nat} {I : ParseState σ → Prop} {sp : Speaker σ} {seen : UInt8 → Bool} (env : ParserEnv σ)

theorem inBlock_attrHeaderError {P : ParseState σ → Prop} (err : UpdateErr) :
    InBlock lo hi P (attrHeaderError err) fun header _ => header = none :=
  fun st st' h _ => ⟨_, _, _, rfl, rfl, ⟨h.ibuf, by rw [h.rest]⟩, rfl⟩

theorem inBlock_attrLength [Stable I] (flag : UInt8)
    (hroom : p + (if checkFlag flag bgpAttrFlagExtlen then 2 else 1) ≤ hi) :
    InBlock lo hi (At p I) (attrLength flag) fun _ => At (p + if checkFlag flag bgpAttrFlagExtlen then 2 else 1) I := by
  unfold attrLength
  split_ifs with hext
  · rw [if_pos hext] at hroom
    exact (lockstep_getw hroom).bind fun _ => .of_pure fun _ => id
  · rw [if_neg hext] at hroom
    exact (lockstep_getc hroom).bind fun _ => .of_pure fun _ => id

/-- An attribute whose header is read: it begins where the reader stood, is of a type that was not seen, and ends in
the block. -/
structure HeaderRead (hi p : Nat) (sp : Speaker σ) (seen : UInt8 → Bool) (args : BgpAttrParserArgs) (attrEndp : Nat)
    (st : ParseState σ) : Prop where
  startp : args.startp = p
  ends : attrEndp = args.startp + args.total
  le : attrEndp ≤ hi
  unseen : seen args.type = false
  progress : p < st.ibuf.getp
  value : st.ibuf.getp + args.length = attrEndp
  good : st.Good sp (update seen args.type true)

theorem inBlock_attrHeader : InBlock lo hi (At p (Good sp seen)) (attrHeader hi) fun header st =>
      ∀ args attrEndp, header = some (args, attrEndp) → HeaderRead hi p sp seen args attrEndp st := by
  have herr : ∀ {P : ParseState σ → Prop} err, InBlock lo hi P (attrHeaderError err) fun header st =>
      ∀ args attrEndp, header = some (args, attrEndp) → HeaderRead hi p sp seen args attrEndp st := by
    intro P err
    refine (inBlock_attrHeaderError err).mono (fun _ => id) ?_
    rintro _ _ rfl _ _ h
    cases h
  refine lockstep_getp ?_
  split
  · exact herr _
  refine (lockstep_getc (by omega)).bind fun flags => ?_
  refine (lockstep_getc (by omega)).bind fun type => ?_
  split
  · exact herr _
  rename_i hext
  refine bind (inBlock_attrLength _ ?_) fun length => ?_
  · cases hflag : checkFlag (0xf0 &&& flags) bgpAttrFlagExtlen with
    | false =>
      rw [if_neg Bool.false_ne_true]
      omega
    | true =>
      rw [hflag, Bool.true_and, decide_eq_true_eq] at hext
      rw [if_pos rfl]
      omega
  generalize (if checkFlag (0xf0 &&& flags) bgpAttrFlagExtlen then 2 else 1) = width
  refine get_bind ?_ fun st hst => ?_
  · rintro st st' h -
    rw [h.rest]
  rw [hst.2.seen]
  split
  · exact herr _
  rename_i hseen
  refine bind (lockstep_modify (J := Good sp (update seen type true)) (fun _ _ => rfl) fun st h => ?_)
    fun _ => ?_
  · exact ⟨⟨h.speaker, by rw [h.seen], h.extra⟩, h.aspath, h.as4Path⟩
  refine lockstep_getp ?_
  dsimp only
  split
  · exact herr _
  rename_i hle
  refine .of_pure fun st h args attrEndp heq => ?_
  cases heq
  obtain ⟨hgetp, hgood⟩ := h
  refine ⟨rfl, ?_, Nat.not_lt.1 hle, not_eq_true _ ▸ hseen, ?_, ?_, hgood⟩
  · dsimp only
    omega
  · omega
  · dsimp only
    omega

/-- The attributes that the loop of `bgp_attr_parse` comes to, those whose header it reads. -/
def attrVisits (endp : Nat) : Nat → ParseState σ → List BgpAttrParserArgs
  | 0, _ => []
  | turns + 1, st =>
    if st.ibuf.getp < endp then
      match attrHeader endp st with
      | some (some (args, _), _) =>
        args :: match bgpAttrStep env endp st with
          | some (none, st') => attrVisits endp turns st'
          | _ => []
      | _ => []
    else []

/-- One turn of the loop: where it goes on, an attribute of a new type was taken. -/
theorem bgpAttrStep_inBlock {st st' : ParseState σ} (hsame : st.SameIn lo hi st') (hgood : st.Good sp seen)
    (htype : ∀ args attrEndp r, attrHeader hi st = some (some (args, attrEndp), r) → args.type ≠ BgpAttr.tarpan.code) :
    ∃ ret r r', bgpAttrStep env hi st = some (ret, r) ∧ bgpAttrStep env hi st' = some (ret, r') ∧ r.SameIn lo hi r' ∧
      ret ≠ some .proceed ∧ (ret = none → ∃ args attrEndp h, attrHeader hi st = some (some (args, attrEndp), h) ∧
        seen args.type = false ∧
        st.ibuf.getp < r.ibuf.getp ∧ r.Good sp (update seen args.type true)) := by
  obtain ⟨header, h, h', hrun, hrun', hsame', hread⟩ := inBlock_attrHeader st st' hsame ⟨rfl, hgood⟩
  rw [bgpAttrStep_eq, bind_run, bind_run, hrun, hrun', bind_some]
  rw [hrun] at htype
  cases header with
  | none => exact ⟨some .error, h, h', rfl, rfl, hsame', nofun, nofun⟩
  | some found =>
    obtain ⟨args, attrEndp⟩ := found
    obtain ⟨hstartp, hends, hle, hunseen, hprog, hval, hgood'⟩ := hread args attrEndp rfl
    have hargs : args.LiesIn lo hi h.ibuf.getp := by
      have := hsame.ibuf.lo_le
      constructor <;> omega
    obtain ⟨ret, r, r', hbody, hbody', hsame'', hret, hend⟩ :=
      inBlock_bgpAttrBody env hargs (htype args attrEndp h rfl) h h' hsame' ⟨rfl, hgood'⟩
    rw [← hends] at hbody hbody' hend
    refine ⟨ret, r, r', hbody, hbody', hsame'', hret,
      fun hnone => ⟨args, attrEndp, h, rfl, hunseen, ?_, (hend hnone).2⟩⟩
    rw [(hend hnone).1]
    omega

variable {env} {args : BgpAttrParserArgs} {turns : Nat}

theorem attrVisits_header {st r : ParseState σ}
    (hlt : st.ibuf.getp < hi) (h : attrHeader hi st = some (some (args, attrEndp), r)) :
    args ∈ attrVisits env hi (turns + 1) st := by
  rw [attrVisits, if_pos hlt, h]
  exact mem_cons_self

theorem attrVisits_step {st h r : ParseState σ}
    (hlt : st.ibuf.getp < hi) (hhdr : attrHeader hi st = some (some (args, attrEndp), h))
    (hstep : bgpAttrStep env hi st = some (none, r)) :
    attrVisits env hi (turns + 1) st = args :: attrVisits env hi turns r := by
  rw [attrVisits, if_pos hlt, hhdr]
  rw [hstep]

theorem update_unseen {seen : UInt8 → Bool} {type other : UInt8} (h : update seen type true other = false) :
    other ≠ type ∧ seen other = false := by
  by_cases heq : other = type
  · rw [heq, update_self] at h
    cases h
  · rw [update_of_ne heq] at h
    exact ⟨heq, h⟩

/-- The loop comes to no type twice, and to none that was seen before. -/
theorem attrVisits_nodup : ∀ {turns : Nat} {st : ParseState σ} {seen : UInt8 → Bool}, st.SameIn lo hi st →
    st.Good sp seen → (∀ args ∈ attrVisits env hi turns st, args.type ≠ BgpAttr.tarpan.code) →
    (∀ args ∈ attrVisits env hi turns st, seen args.type = false) ∧ ((attrVisits env hi turns st).map (·.type)).Nodup
  | 0, _, _, _, _, _ => ⟨fun _ h => absurd h not_mem_nil, nodup_nil⟩
  | turns + 1, st, seen, hsame, hgood, hvis => by
    by_cases hlt : st.ibuf.getp < hi
    swap
    · rw [attrVisits, if_neg hlt]
      exact ⟨fun _ h => absurd h not_mem_nil, nodup_nil⟩
    obtain ⟨header, h, -, hhdr, -, -, hread⟩ := inBlock_attrHeader st st hsame ⟨rfl, hgood⟩
    cases header with
    | none =>
      rw [attrVisits, if_pos hlt, hhdr]
      exact ⟨fun _ h => absurd h not_mem_nil, nodup_nil⟩
    | some found =>
      obtain ⟨args, attrEndp⟩ := found
      have hunseen := (hread args attrEndp rfl).unseen
      obtain ⟨ret, r, r', hstep, -, hsame', -, hnext⟩ := bgpAttrStep_inBlock env hsame hgood
        fun args attrEndp h hhdr => hvis args (attrVisits_header hlt hhdr)
      cases ret with
      | some ret =>
        rw [attrVisits, if_pos hlt, hhdr]
        rw [hstep]
        exact ⟨fun a ha => by rwa [mem_singleton.1 ha], nodup_singleton _⟩
      | none =>
        obtain ⟨args', attrEndp', h', hhdr', -, -, hgood'⟩ := hnext rfl
        cases hhdr.symm.trans hhdr'
        rw [attrVisits_step hlt hhdr hstep] at hvis ⊢
        obtain ⟨hrest, hnd⟩ := attrVisits_nodup hsame'.left hgood' fun a ha => hvis a (mem_cons_of_mem args ha)
        refine ⟨?_, nodup_cons.2 ⟨?_, hnd⟩⟩
        · rw [forall_mem_cons]
          exact ⟨hunseen, fun a ha => (update_unseen (hrest a ha)).2⟩
        · intro hmem
          obtain ⟨a, ha, htype⟩ := mem_map.1 hmem
          exact (update_unseen (hrest a ha)).1 htype

/-- The loop returns, from the octets of the block alone. -/
theorem inBlock_bgpAttrLoop : ∀ {turns : Nat} {seen : UInt8 → Bool}, InBlock lo hi
      (fun st => hi ≤ st.ibuf.getp + turns ∧ st.Good sp seen ∧
        ∀ args ∈ attrVisits env hi turns st, args.type ≠ BgpAttr.tarpan.code)
      (bgpAttrLoop env hi turns) fun ret st => ret ≠ some .proceed ∧ (ret = none → ∃ seen, At hi (Good sp seen) st)
  | 0, seen => by
    rintro st st' hsame ⟨hle, hgood, -⟩
    have hgetp := hsame.ibuf.getp
    have hend : st.ibuf.getp = hi := Nat.le_antisymm hsame.ibuf.getp_hi hle
    refine ⟨none, st, st', ?_, ?_, hsame, nofun, fun _ => ⟨seen, hend, hgood⟩⟩
    · rw [bgpAttrLoop, run_bind (getp_run _), if_neg (by omega)]
      rfl
    · rw [bgpAttrLoop, run_bind (getp_run _), if_neg (by omega)]
      rfl
  | turns + 1, seen => by
    rintro st st' hsame ⟨hle, hgood, hvis⟩
    have hgetp := hsame.ibuf.getp
    rw [bgpAttrLoop, bind_run, bind_run, getp_run, getp_run, bind_some, bind_some, hgetp]
    by_cases hlt : st.ibuf.getp < hi
    · obtain ⟨ret, r, r', hstep, hstep', hsame', hret, hnext⟩ := bgpAttrStep_inBlock env hsame hgood
        fun args attrEndp h hhdr => hvis args (attrVisits_header hlt hhdr)
      rw [if_pos hlt, bind_run, bind_run, hstep, hstep', bind_some]
      cases ret with
      | some ret => exact ⟨some ret, r, r', rfl, rfl, hsame', hret, by rintro ⟨⟩⟩
      | none =>
        obtain ⟨args, attrEndp, h, hhdr, -, hprog, hgood'⟩ := hnext rfl
        rw [attrVisits_step hlt hhdr hstep] at hvis
        exact inBlock_bgpAttrLoop r r' hsame' ⟨by omega, hgood', fun a ha => hvis a (mem_cons_of_mem args ha)⟩
    · rw [if_neg hlt]
      exact ⟨none, st, st', rfl, rfl, hsame, nofun,
        fun _ => ⟨seen, Nat.le_antisymm hsame.ibuf.getp_hi (Nat.not_lt.1 hlt), hgood⟩⟩

end Loop

/-! ## After the loop -/

section Finish
open ParseState (At Good)
variable {lo hi p : Nat} {sp : Speaker σ} {seen : UInt8 → Bool} (env : ParserEnv σ)

instance stable_true : Stable fun _ : ParseState σ => True := ⟨fun _ _ => id, fun _ _ => id⟩

theorem inBlock_onSpeaker {α : Type} {f : Speaker σ → Option (α × Speaker σ)} {a : α} {sp' : Speaker σ}
    (hf : f sp = some (a, sp')) :
    InBlock lo hi (At p (Good sp seen)) (onSpeaker f) fun b st => b = a ∧ At p (Good sp' seen) st := by
  rintro st st' h ⟨hp, hgood⟩
  have hsp' : st'.speaker = sp := by rw [h.rest]; exact hgood.speaker
  refine ⟨a, { st with speaker := sp' }, { st' with speaker := sp' }, ?_, ?_, ⟨h.ibuf, ?_⟩, rfl, hp, ?_⟩
  · rw [onSpeaker, hgood.speaker, hf]
    rfl
  · rw [onSpeaker, hsp', hf]
    rfl
  · rw [h.rest]
  · exact ⟨⟨rfl, hgood.seen, hgood.extra⟩, hgood.aspath, hgood.as4Path⟩

theorem inBlock_ensureTarpan (hstore : sp.store.Ok) (hfr : sp.store.Fresh env.newTarpan) :
    InBlock lo hi (At p (Good sp seen)) (ensureTarpan env) fun _ st => ∃ sp', At p (Good sp' seen) st := by
  refine get_bind ?_ fun st hst => ?_
  · rintro st st' h -
    rw [h.rest]
  split
  · exact .of_pure fun _ h => ⟨sp, h⟩
  obtain ⟨tarpan, sp', hreceived, -⟩ :=
    tarpanReceived_spec env.tarpanActiveHandler env.peer.as tarpanMessageNew hstore hfr
  refine bind (inBlock_onSpeaker hreceived) fun tarpan' => of_pre fun _ => ?_
  refine mono (lockstep_modify (J := Good sp' seen) (fun _ _ => rfl) fun st h => ?_) (fun _ => id) fun _ _ h => ⟨sp', h⟩
  have hset := good_setFlag (a := .tarpan) h nofun nofun
  exact { hset with }

theorem inBlock_bgpAttrCheck : InBlock lo hi (At p (Good sp seen)) (bgpAttrCheck env) fun _ => At p (Good sp seen) := by
  refine get_bind ?_ fun st hst => ?_
  · rintro st st' h -
    rw [h.rest]
  split
  · exact .of_pure fun _ => id
  · exact lockstep_notify.bind fun _ => .of_pure fun _ => id

theorem inBlock_bgpAttrMungeAs4Attrs :
    InBlock lo hi (fun st => At p (Good sp seen) st ∧ st.attr.has .asPath) (bgpAttrMungeAs4Attrs env)
      fun _ => At p fun _ => True := by
  rintro st st' ⟨hag, hrest⟩ ⟨⟨hp, hgood⟩, hhas⟩
  obtain ⟨aspath, hasp⟩ := isSome_iff_exists.1 (hgood.aspath hhas)
  obtain ⟨extra, hex⟩ := isSome_iff_exists.1 hgood.extra
  obtain ⟨attr, ignoreAs4Path, hmunge, hhas4, -⟩ := mungeAggregator_value hex
  obtain ⟨ibuf', rfl⟩ : ∃ ibuf', st' = { st with ibuf := ibuf' } := ⟨_, hrest⟩
  have hmunge' : mungeAggregator { st with ibuf := ibuf' } = some (attr, ignoreAs4Path) := hmunge
  unfold bgpAttrMungeAs4Attrs
  simp only [hasp]
  split
  · exact ⟨_, _, _, rfl, rfl, ⟨hag, rfl⟩, hp, trivial⟩
  rw [hmunge, hmunge']
  dsimp only [bind_eq_bind, bind_some]
  split_ifs with hset
  · rw [and_eq_true, hhas4] at hset
    obtain ⟨as4Path, has4Path⟩ := isSome_iff_exists.1 (hgood.as4Path hset.2)
    obtain ⟨path, hrecon⟩ : ∃ path, aspathReconcileAs4 aspath as4Path = some path :=
      ⟨_, aspathReconcileAs4_returns aspath as4Path⟩
    have hbind : ∀ k : Aspath → Option (AttrParseRet × ParseState σ),
        (st.as4Path.bind fun p => (aspathReconcileAs4 aspath p).bind k) = k path := by
      intro k
      rw [has4Path, bind_some, hrecon, bind_some]
    rw [hbind, hbind]
    exact ⟨_, _, _, rfl, rfl, ⟨hag, rfl⟩, hp, trivial⟩
  · exact ⟨_, _, _, rfl, rfl, ⟨hag, rfl⟩, hp, trivial⟩

theorem aspathAddSeq_returns (aspath : Aspath) (asno : UInt32) : ∃ p, aspathAddSeq aspath asno = some p := by
  unfold aspathAddSeq aspathAddAsns
  split
  · split <;> exact ⟨_, if_pos (by decide)⟩
  · exact ⟨_, if_pos (by decide)⟩

theorem inBlock_bgpAttrAspathCheck :
    InBlock lo hi (At p fun _ => True) (bgpAttrAspathCheck env) fun _ => At p fun _ => True := by
  refine get_bind ?_ fun st _ => ?_
  · rintro st st' h -
    rw [h.rest]
  dsimp only
  split
  · exact lockstep_notify.bind fun _ => .of_pure fun _ => id
  refine get_bind ?_ fun st' _ => ?_
  · rintro st st' h -
    rw [h.rest]
  split
  · exact lockstep_notify.bind fun _ => .of_pure fun _ => id
  split
  · obtain ⟨path, hpath⟩ := aspathAddSeq_returns (st.attr.aspath.getD []) env.peer.changeLocalAs
    rw [hpath]
    refine bind (Q := fun _ => At p fun _ => True) (fun st st' h hst => ⟨path, st, st', rfl, rfl, h, hst⟩)
      fun path => ?_
    exact bind (lockstep_modify (fun _ _ => rfl) fun _ => id) fun _ => .of_pure fun _ => id
  · exact .of_pure fun _ => id

theorem inBlock_bgpAttrFinish :
    InBlock lo hi (At p (Good sp seen)) (bgpAttrFinish env) fun _ => At p fun _ => True := by
  refine get_bind_eq ?_ fun st hst => ?_
  · rintro st st' h -
    rw [h.rest]
  split_ifs with hhas
  · have hpre : ∀ st', st' = st → At p (Good sp seen) st' ∧ st'.attr.has .asPath := fun _ h => h ▸ ⟨hst, hhas⟩
    refine bind ((inBlock_bgpAttrMungeAs4Attrs env).mono hpre fun _ _ => id) fun ret => ?_
    split
    · exact inBlock_bgpAttrAspathCheck env
    · exact lockstep_notify.bind fun _ => .of_pure fun _ => id
  · exact .of_pure fun st' h => h ▸ ⟨hst.1, trivial⟩

/-- `bgp_attr_parse` returns, from the octets of the block alone, and where it lets the UPDATE pass it has read all of
them. -/
theorem inBlock_bgpAttrParse {size : Nat} (hst : sp.store.Ok) (hfr : sp.store.Fresh env.newTarpan) :
    InBlock p (p + size)
      (fun st => At p (Good sp seen) st ∧ ∀ args ∈ attrVisits env (p + size) size st, args.type ≠ BgpAttr.tarpan.code)
      (bgpAttrParse env size) fun ret st => ret = .proceed → st.ibuf.getp = p + size := by
  refine mono (J := At p fun st => st.Good sp seen ∧
    ∀ args ∈ attrVisits env (p + size) size st, args.type ≠ BgpAttr.tarpan.code) (lockstep_getp ?_)
    (fun _ h => ⟨h.1.1, h.1.2, h.2⟩) fun _ _ => id
  refine bind (inBlock_bgpAttrLoop.mono (fun st h => ⟨?_, h.2⟩) fun _ _ => id) fun ret => ?_
  · rw [h.1]
  cases ret with
  | some ret => exact .of_pure fun _ h hret => absurd (congrArg some hret) h.1
  | none =>
    refine mono (J := fun st => ∃ seen, At (p + size) (Good sp seen) st) (of_exists fun seen => ?_)
      (fun _ h => h.2 rfl) fun _ _ => id
    refine lockstep_getp ?_
    rw [if_neg (not_not_intro rfl)]
    refine (inBlock_ensureTarpan env hst hfr).bind fun _ => of_exists fun sp' => ?_
    refine (inBlock_bgpAttrCheck env).bind fun ret => ?_
    split
    · exact (inBlock_bgpAttrFinish env).mono (fun _ => id) fun _ _ h _ => h.1
    · exact .of_pure fun _ h _ => h.1

end Finish

/-! ## Safety -/

section Safety

/-- The octets of the bitmap `seen` in `bgp_attr_parse`, `BGP_ATTR_BITMAP_SIZE`, of `BITMAP_NBBY` bits each. -/
def bgpAttrBitmapSize : Nat := 32
def bitmapNbby : Nat := 8

/-- The entry of `attr_flags_values` that `bgp_attr_flag_invalid` reads. -/
def attrFlagsIndex (args : BgpAttrParserArgs) : Option Nat :=
  if args.type.toNat > attrFlagsValuesMax then none else some args.type.toNat

/-- The octet of the bitmap that `CHECK_BITMAP` and `SET_BITMAP` use. -/
def seenIndex (args : BgpAttrParserArgs) : Nat := args.type.toNat / bitmapNbby

/-- The parser comes back from the state `st` for attributes of `size` octets in all. -/
structure ParseSafe (env : ParserEnv σ) (size : Nat) (st : ParseState σ) : Prop where
  returns : (bgpAttrParse env size st).isSome
  once : ((attrVisits env (st.ibuf.getp + size) size st).map (·.type)).Nodup
  flagsInRange : ∀ args ∈ attrVisits env (st.ibuf.getp + size) size st, ∀ i ∈ attrFlagsIndex args,
    i < attrFlagsValuesMax
  seenInRange : ∀ args ∈ attrVisits env (st.ibuf.getp + size) size st, seenIndex args < bgpAttrBitmapSize
  inBlock : ∀ ibuf, st.ibuf.AgreeOn st.ibuf.getp (st.ibuf.getp + size) ibuf → ∀ ret r,
    bgpAttrParse env size st = some (ret, r) →
    ∃ ibuf', bgpAttrParse env size { st with ibuf } = some (ret, { r with ibuf := ibuf' }) ∧ ibuf'.getp = r.ibuf.getp
  ends : ∀ r, bgpAttrParse env size st = some (.proceed, r) → r.ibuf.getp = st.ibuf.getp + size

/-- The table of the flags has no entry for the Tarpan attribute, and for that one alone it is read all the same. -/
theorem attrFlagsIndex_lt_iff (args : BgpAttrParserArgs) :
    (∀ i ∈ attrFlagsIndex args, i < attrFlagsValuesMax) ↔ args.type ≠ BgpAttr.tarpan.code := by
  have htype : args.type = BgpAttr.tarpan.code ↔ args.type.toNat = attrFlagsValuesMax := UInt8.toNat_inj.symm
  unfold attrFlagsIndex
  rw [Ne, htype]
  split
  · simp only [not_mem_none, false_implies, implies_true, true_iff]
    omega
  · simp only [mem_some_iff, forall_eq']
    omega

theorem not_has_none (a : BgpAttr) : ¬ ({ extra := some {} } : Attr).has a = true := by
  cases a <;> decide

/-- Parsing the attributes of an UPDATE is safe for all octets and lengths, up to the Tarpan attribute. -/
theorem bgpAttrParse_safe_iff (env : ParserEnv σ) (speaker : Speaker σ) (ibuf : Stream) (size : Nat)
    (hsize : size ≤ ibuf.readable) (hstore : speaker.store.Ok) (hfresh : speaker.store.Fresh env.newTarpan) :
    ParseSafe env size { ibuf, speaker } ↔
      ∀ args ∈ attrVisits env (ibuf.getp + size) size { ibuf, speaker }, args.type ≠ BgpAttr.tarpan.code := by
  constructor
  · exact fun h args hargs => (attrFlagsIndex_lt_iff args).1 (h.flagsInRange args hargs)
  intro hvis
  have hle : ibuf.getp + size ≤ ibuf.data.length := by
    have := ibuf.getp_le
    unfold Stream.readable Stream.endp at hsize
    omega
  have hgood : ParseState.Good speaker (fun _ => false) ({ ibuf, speaker } : ParseState σ) :=
    ⟨⟨rfl, rfl, rfl⟩, fun h => absurd h (not_has_none .asPath), fun h => absurd h (not_has_none .as4Path)⟩
  have hself : ParseState.SameIn ibuf.getp (ibuf.getp + size) ({ ibuf, speaker } : ParseState σ) { ibuf, speaker } :=
    ⟨.refl le_rfl (Nat.le_add_right ..) hle, rfl⟩
  have hrun := @inBlock_bgpAttrParse σ ibuf.getp speaker (fun _ => false) env size hstore hfresh
  obtain ⟨ret, r, -, hret, -, -, hend⟩ := hrun _ _ hself ⟨⟨rfl, hgood⟩, hvis⟩
  refine ⟨?_, (attrVisits_nodup hself hgood hvis).2, ?_, ?_, ?_, ?_⟩
  · rw [hret]
    rfl
  · exact fun args hargs => (attrFlagsIndex_lt_iff args).2 (hvis args hargs)
  · intro args _
    have := args.type.toNat_lt
    unfold seenIndex bitmapNbby bgpAttrBitmapSize
    omega
  · intro other hagree ret' r' hret'
    obtain ⟨a, s, s', hs, hs', hsame, -⟩ := hrun _ { ibuf := other, speaker } ⟨hagree, rfl⟩ ⟨⟨rfl, hgood⟩, hvis⟩
    cases hs.symm.trans hret'
    refine ⟨s'.ibuf, ?_, hsame.ibuf.getp⟩
    rw [← hsame.rest]
    exact hs'
  · intro r' hr'
    cases hret.symm.trans hr'
    exact hend rfl

/-- A speaker that has interned nothing. -/
def newSpeaker : Speaker Unit := ⟨{ as := 65000, routerId := 2 }, (), .empty⟩

/-- What it parses the UPDATEs of an external peer with. -/
def externalParser : ParserEnv Unit where
  peer := { as := 65001, sort := .ebgp, remoteId := 1, suRemote := .sin 1 }
  codec := .plain
  tarpanActiveHandler := none
  newTarpan := ⟨16, some 4096⟩
  behindFlagsValues := 0

/-- An input buffer with the octets of a path attribute list and what follows it. -/
def bufferOf (octets : List UInt8) (h : octets.length ≤ 4096) : Stream :=
  { Stream.full octets with size := 4096, endp_le := h }

/-- ORIGIN and an attribute that is not known; two octets of NLRI follow. -/
theorem bgpAttrParse_safe_unknown :
    ParseSafe externalParser 9
      { ibuf := bufferOf [0x40, 1, 1, 0, 0xc0, 99, 2, 7, 7, 8, 10] (by decide), speaker := newSpeaker } := by
  refine (bgpAttrParse_safe_iff externalParser newSpeaker _ 9 (by decide) TarpanStore.empty_ok ?_).2 (by decide)
  exact ⟨fun _ hx => absurd hx (Nat.lt_irrefl 0), _, rfl, rfl⟩

/-- For a Tarpan attribute, here an empty one, the entry behind the table is read. -/
theorem not_bgpAttrParse_safe_tarpan :
    ¬ ParseSafe externalParser 3 { ibuf := bufferOf [0xc0, 19, 0] (by decide), speaker := newSpeaker } := by
  intro h
  have hread : (⟨0, 19, 0xc0, 0, 3⟩ : BgpAttrParserArgs) ∈
      attrVisits externalParser 3 3 { ibuf := bufferOf [0xc0, 19, 0] (by decide), speaker := newSpeaker } :=
    attrVisits_header (by decide) rfl
  exact absurd (h.flagsInRange _ hread 19 rfl) (by decide)

end Safety

/-! ## The Tarpan attribute -/

section Tarpan
variable {env : ParserEnv σ} {args : BgpAttrParserArgs} {st st' : ParseState σ}

/-- The octets of a Tarpan attribute are read, and it is either taken with its flag or treated as malformed. -/
def TarpanHandled (env : ParserEnv σ) (args : BgpAttrParserArgs) (st : ParseState σ) : Prop :=
  ∃ ret st', bgpAttrTarpan env args st = some (ret, st') ∧ st'.ibuf.getp = st.ibuf.getp + args.length ∧
    (ret = .proceed ∧ st'.attr.tarpan.isSome ∧ st'.attr.has .tarpan ∨
      ∃ mid, bgpAttrMalformed env args .optAttrErr args.total mid = some (ret, st'))

/-- A malformed Tarpan attribute is never passed over. -/
theorem bgpAttrMalformed_tarpan (htype : args.type = BgpAttr.tarpan.code) {err : UpdateErr} {length : Nat}
    {ret : AttrParseRet} (h : bgpAttrMalformed env args err length st = some (ret, st')) :
    ret ≠ .proceed := by
  have hcode : BgpAttr.ofCode args.type = some .tarpan := by
    rw [htype]
    decide
  unfold bgpAttrMalformed at h
  rw [run_bind (get_run _)] at h
  by_cases hsort : env.peer.sort ≠ .ebgp
  · rw [if_pos hsort] at h
    cases h
    exact nofun
  · rw [if_neg hsort] at h
    obtain ⟨⟨⟨⟩, mid⟩, -, h⟩ := bind_eq_some_iff.1 h
    simp only [hcode] at h
    split at h <;> cases h <;> exact nofun

/-- What can be unpacked is interned and handed to the protocol. -/
theorem bgpAttrTarpan_unpacked {msg : TarpanMsg} (hs : st.speaker.store.Ok) (hfr : st.speaker.store.Fresh env.newTarpan)
    (hlen : args.length ≤ st.ibuf.readable) (hmsg : env.codec.unpack (st.ibuf.unread.take args.length) = some msg) :
    ∃ tarpan speaker, bgpAttrTarpan env args st = some (.proceed, { st with
      speaker, ibuf := st.ibuf.advance args.length,
      attr := { st.attr with tarpan := some tarpan, flag := st.attr.flag ||| BgpAttr.tarpan.flagBit } }) := by
  obtain ⟨tarpan, speaker, hreceived, -⟩ := tarpanReceived_spec env.tarpanActiveHandler env.peer.as msg hs hfr
  have hne : st.ibuf.unread.take args.length ≠ [] := by
    intro hnil
    rw [hnil, env.codec.unpack_nil] at hmsg
    cases hmsg
  have hparse : bgpTarpanParse env.codec env.tarpanActiveHandler env.peer.as st.speaker
      (st.ibuf.unread.take args.length) env.newTarpan = some (some tarpan, speaker) := by
    unfold bgpTarpanParse
    rw [if_neg hne, hmsg, bind_eq_bind, bind_some, hreceived]
    rfl
  refine ⟨tarpan, speaker, ?_⟩
  unfold bgpAttrTarpan
  simp only [bind_run, peek_run, bind_some, onSpeaker, hparse, map_some, modifyAttr_run]
  rw [forwardGetp_run (by exact hlen)]
  simp

/-- An attribute in the buffer is handled exactly where its octets can be unpacked. Without octets it is passed over,
and an assertion fails for all other ones. -/
theorem tarpanHandled_iff (env : ParserEnv σ) (args : BgpAttrParserArgs) (st : ParseState σ)
    (htype : args.type = BgpAttr.tarpan.code) (hlen : args.length ≤ st.ibuf.readable) (hs : st.speaker.store.Ok)
    (hfresh : st.speaker.store.Fresh env.newTarpan) :
    TarpanHandled env args st ↔ (env.codec.unpack (st.ibuf.unread.take args.length)).isSome := by
  constructor
  · rintro ⟨ret, st', hrun, -, hcase⟩
    by_contra hnone
    rw [not_isSome_iff_eq_none] at hnone
    unfold bgpAttrTarpan at hrun
    simp only [bind_run, peek_run, bind_some, onSpeaker, bgpTarpanParse, hnone] at hrun
    by_cases hnil : st.ibuf.unread.take args.length = []
    · simp only [if_pos hnil, map_some, bind_some, modifyAttr_run] at hrun
      rw [forwardGetp_run (by exact hlen)] at hrun
      cases hrun
      rcases hcase with ⟨-, hsome, -⟩ | ⟨mid, hmid⟩
      · cases hsome
      · exact bgpAttrMalformed_tarpan htype hmid rfl
    · rw [if_neg hnil] at hrun
      cases hrun
  · intro h
    obtain ⟨msg, hmsg⟩ := isSome_iff_exists.1 h
    obtain ⟨tarpan, speaker, hrun⟩ := bgpAttrTarpan_unpacked hs hfresh hlen hmsg
    have hhas := @has_setFlag .tarpan st.attr
      { st.attr with tarpan := some tarpan, flag := st.attr.flag ||| BgpAttr.tarpan.flagBit } rfl .tarpan
    rw [decide_eq_true rfl, Bool.or_true] at hhas
    exact ⟨_, _, hrun, advance_getp hlen, .inl ⟨rfl, rfl, hhas⟩⟩

/-- The message of version 12 without Wiser data. -/
theorem tarpanHandled_version : TarpanHandled externalParser ⟨7, 19, 0xc0, 0, 10⟩
    { ibuf := bufferOf [0, 0, 0, 12, 0, 0, 0] (by decide), speaker := newSpeaker } := by
  refine (tarpanHandled_iff externalParser _ _ rfl (by decide) TarpanStore.empty_ok ?_).2 (by decide)
  exact ⟨fun _ hx => absurd hx (Nat.lt_irrefl 0), _, rfl, rfl⟩

/-- One octet that is no message ends the process. -/
theorem not_tarpanHandled_octet : ¬ TarpanHandled externalParser ⟨1, 19, 0xc0, 0, 4⟩
    { ibuf := bufferOf [0xff] (by decide), speaker := newSpeaker } := by
  rintro ⟨ret, st', hrun, -⟩
  have hnone : (bgpAttrTarpan externalParser ⟨1, 19, 0xc0, 0, 4⟩
      { ibuf := bufferOf [0xff] (by decide), speaker := newSpeaker }).isNone = true := by decide
  rw [hrun] at hnone
  cases hnone

end Tarpan

end Tarpan.Bgpd
