/-
Parsers that stay inside a block of the input buffer. Every handler of `bgp_attr_parse` but the one of the Tarpan
attribute reads inside its attribute, and returns: two buffers that agree on the block are handled alike, whatever
stands around it.
-/
import Tarpan.Bgpd.Attr.Value
import Tarpan.Lib.Block

namespace Tarpan.Bgpd

open Base Lib AttrParser Option Bool List Lockstep BgpAttr

/-! ## AS paths -/

variable {length : Nat}

section AspathReads
variable {lo hi p : Nat} (use32bit : Bool)

theorem lockstep_asnGet (hn : p + (if use32bit then 4 else 2) ≤ hi) :
    Lockstep (Stream.AgreeOn lo hi) (·.getp = p) (asnGet use32bit)
      (fun _ s => s.getp = p + if use32bit then 4 else 2) := by
  cases use32bit with
  | true => exact lockstep_streamGetl hn
  | false => exact (lockstep_streamGetw hn).map (·.toUInt32) fun _ _ => id

theorem lockstep_asnsGet : ∀ (num : Nat) {p : Nat}, p + num * (if use32bit then 4 else 2) ≤ hi →
    Lockstep (Stream.AgreeOn lo hi) (·.getp = p) (asnsGet use32bit num)
      (fun _ s => s.getp = p + num * if use32bit then 4 else 2)
  | 0, p, _ => fun s s' h hp => ⟨[], s, s', rfl, rfl, h, by rwa [Nat.zero_mul]⟩
  | num + 1, p, hn => by
    rw [Nat.succ_mul] at hn
    intro s s' h hp
    obtain ⟨a, r, r', ha, ha', hr, hrp⟩ := lockstep_asnGet use32bit (by omega) s s' h hp
    obtain ⟨l, t, t', hl, hl', ht, htp⟩ := lockstep_asnsGet num (by omega) r r' hr hrp
    refine ⟨a :: l, t, t', ?_, ?_, ht, ?_⟩
    · simp [asnsGet, ha, hl]
    · simp [asnsGet, ha', hl']
    · dsimp only
      rw [htp, Nat.succ_mul]
      omega

theorem lockstep_assegmentsParseLoop : ∀ {bytes p : Nat}, p + (length - bytes) ≤ hi →
    Lockstep (Stream.AgreeOn lo hi) (·.getp = p) (fun s => assegmentsParseLoop use32bit length s bytes)
      (fun _ _ => True) := by
  intro bytes
  induction hleft : length - bytes using Nat.strong_induction_on generalizing bytes with
  | _ left ih =>
  intro p hn s s' h hp
  dsimp only
  rw [assegmentsParseLoop, assegmentsParseLoop]
  by_cases hlt : bytes < length
  · rw [if_pos hlt, if_pos hlt]
    by_cases hhead : length - bytes ≤ asHeaderSize
    · rw [if_pos hhead, if_pos hhead]
      exact ⟨_, _, _, rfl, rfl, h, trivial⟩
    rw [if_neg hhead, if_neg hhead]
    unfold asHeaderSize at hhead
    obtain ⟨type, s1, s1', ht, ht', h1, hp1⟩ := lockstep_streamGetc (by omega) s s' h hp
    obtain ⟨len, s2, s2', hl, hl', h2, hp2⟩ := lockstep_streamGetc (by omega) s1 s1' h1 hp1
    simp only [ht, ht', hl, hl', bind_eq_bind, bind_some]
    by_cases hsize : bytes + assegmentSize len.toNat use32bit > length ∨ len = 0
    · rw [if_pos hsize, if_pos hsize]
      exact ⟨_, _, _, rfl, rfl, h2, trivial⟩
    rw [if_neg hsize, if_neg hsize]
    cases AsSegType.ofCode type with
    | none => exact ⟨_, _, _, rfl, rfl, h2, trivial⟩
    | some type =>
      unfold assegmentSize asHeaderSize at hsize
      obtain ⟨as, s3, s3', ha, ha', h3, hp3⟩ := lockstep_asnsGet use32bit len.toNat (by omega) s2 s2' h2 hp2
      obtain ⟨rest, s4, s4', hr, hr', h4, -⟩ := ih (length - (bytes + assegmentSize len.toNat use32bit))
        (by unfold assegmentSize asHeaderSize; omega) rfl (by unfold assegmentSize asHeaderSize; omega) s3 s3' h3 hp3
      simp only [ha, ha', hr, hr', bind_some]
      exact ⟨_, _, _, rfl, rfl, h4, trivial⟩
  · rw [if_neg hlt, if_neg hlt]
    exact ⟨_, _, _, rfl, rfl, h, trivial⟩

theorem lockstep_aspathParse (hn : p + length ≤ hi) :
    Lockstep (Stream.AgreeOn lo hi) (·.getp = p) (fun s => aspathParse s length use32bit) (fun _ _ => True) := by
  rintro s s' h rfl
  dsimp only
  unfold aspathParse assegmentsParse
  by_cases hodd : length % 2 ≠ 0
  · rw [if_pos hodd, if_pos hodd]
    exact ⟨_, _, _, rfl, rfl, h, trivial⟩
  rw [if_neg hodd, if_neg hodd]
  by_cases hzero : length = 0
  · rw [if_pos hzero, if_pos hzero]
    exact ⟨_, _, _, rfl, rfl, h, trivial⟩
  obtain ⟨hr, hr'⟩ := h.readable_le hn
  rw [if_neg hzero, if_neg hzero, if_neg (by unfold asHeaderSize; omega), if_neg (by unfold asHeaderSize; omega)]
  exact (lockstep_assegmentsParseLoop use32bit (by omega)).map (fun r => r.map assegmentNormalise)
    (fun _ _ => id) s s' h rfl

end AspathReads

/-! ## Parsers in lockstep -/

variable {σ : Type}

/-- The states differ in the octets outside the block only. -/
structure ParseState.SameIn (lo hi : Nat) (st st' : ParseState σ) : Prop where
  ibuf : st.ibuf.AgreeOn lo hi st'.ibuf
  rest : st' = { st with ibuf := st'.ibuf }

theorem ParseState.SameIn.left {lo hi : Nat} {st st' : ParseState σ} (h : st.SameIn lo hi st') : st.SameIn lo hi st :=
  ⟨.refl h.ibuf.lo_le h.ibuf.getp_hi h.ibuf.hi_le, rfl⟩

/-- The reader stands at `p`, and the state has `I`. -/
def ParseState.At (p : Nat) (I : ParseState σ → Prop) (st : ParseState σ) : Prop := st.ibuf.getp = p ∧ I st

/-- `I` is about neither the buffer nor the notifications. -/
class Stable (I : ParseState σ → Prop) : Prop where
  ibuf : ∀ st b, I st → I { st with ibuf := b }
  notified : ∀ st l, I st → I { st with notified := l }

/-- A parser that looks at the octets of the block only. -/
abbrev InBlock (lo hi : Nat) {α : Type} (P : ParseState σ → Prop) (x : AttrParser σ α) (Q : α → ParseState σ → Prop) :
    Prop :=
  Lockstep (ParseState.SameIn lo hi) P x Q

section Rules
open ParseState (At)
variable {lo hi p : Nat} {I J : ParseState σ → Prop} {α : Type} {Q : α → ParseState σ → Prop}

theorem lockstep_read {f : Stream → Option (α × Stream)} {Q : α → Stream → Prop} [Stable I]
    (hf : Lockstep (Stream.AgreeOn lo hi) (·.getp = p) f Q) :
    InBlock lo hi (At p I) (AttrParser.read f) (fun a st => Q a st.ibuf ∧ I st) := by
  rintro st st' ⟨h, hrest⟩ ⟨hp, hst⟩
  obtain ⟨a, r, r', hr, hr', hag, hq⟩ := hf st.ibuf st'.ibuf h hp
  refine ⟨a, { st with ibuf := r }, { st' with ibuf := r' }, ?_, ?_, ⟨hag, ?_⟩, hq, Stable.ibuf st r hst⟩
  · rw [AttrParser.read, hr]
    rfl
  · rw [AttrParser.read, hr']
    rfl
  · rw [hrest]

theorem lockstep_anywhere {x : AttrParser σ α} (h : ∀ q, InBlock lo hi (At q I) x Q) :
    InBlock lo hi I x Q := fun st st' hsame hst => h st.ibuf.getp st st' hsame ⟨rfl, hst⟩

theorem lockstep_getc [Stable I] (hn : p + 1 ≤ hi) : InBlock lo hi (At p I) getc (fun _ => At (p + 1) I) :=
  lockstep_read (lockstep_streamGetc hn)

theorem lockstep_getw [Stable I] (hn : p + 2 ≤ hi) : InBlock lo hi (At p I) getw (fun _ => At (p + 2) I) :=
  lockstep_read (lockstep_streamGetw hn)

theorem lockstep_getl [Stable I] (hn : p + 4 ≤ hi) : InBlock lo hi (At p I) getl (fun _ => At (p + 4) I) :=
  lockstep_read (lockstep_streamGetl hn)

theorem lockstep_getIpv4 [Stable I] (hn : p + 4 ≤ hi) : InBlock lo hi (At p I) getIpv4 (fun _ => At (p + 4) I) :=
  lockstep_read (lockstep_streamGetl hn)

variable {n : Nat}

theorem lockstep_forwardGetp [Stable I] (hn : p + n ≤ hi) :
    InBlock lo hi (At p I) (forwardGetp n) (fun _ => At (p + n) I) :=
  lockstep_read (lockstep_streamForwardGetp hn)

theorem lockstep_setGetp [Stable I] (hlo : lo ≤ n) (hhi : n ≤ hi) :
    InBlock lo hi (At p I) (setGetp n) (fun _ => At n I) :=
  lockstep_read (lockstep_streamSetGetp hlo hhi)

theorem lockstep_get16 [Stable I] (hn : p + 16 ≤ hi) : InBlock lo hi (At p I) get16 (fun _ => At (p + 16) I) := by
  refine lockstep_read (Q := fun _ s => s.getp = p + 16) ?_
  rintro s s' h rfl
  obtain ⟨hr, hr'⟩ := h.readable_le hn
  have hlen : ∀ t : Stream, 16 ≤ t.readable → (t.unread.take 16).length = 16 := by
    intro t ht
    rw [length_take, Stream.unread_length]
    omega
  refine ⟨⟨s.unread.take 16, hlen s hr⟩, s.advance 16, s'.advance 16, dif_pos (hlen s hr), ?_, h.advance hn,
    advance_getp hr⟩
  dsimp only
  rw [dif_pos (hlen s' hr')]
  simp [h.unread_take hn]

theorem lockstep_getp {f : Nat → AttrParser σ α} (hf : InBlock lo hi (At p I) (f p) Q) :
    InBlock lo hi (At p I) (getp >>= f) Q := by
  refine bind (Q := fun a st => a = p ∧ At p I st) ?_ fun a => .of_pre fun ha => ha ▸ hf
  rintro st st' h ⟨hp, hst⟩
  refine ⟨p, st, st', ?_, ?_, h, rfl, hp, hst⟩
  · rw [getp_run, hp]
  · rw [getp_run, h.ibuf.getp, hp]

theorem lockstep_peek (hn : p + n ≤ hi) : InBlock lo hi (At p I) (peek n) (fun _ => At p I) := by
  rintro st st' h ⟨rfl, hst⟩
  refine ⟨st.ibuf.unread.take n, st, st', rfl, ?_, h, rfl, hst⟩
  rw [peek_run, h.ibuf.unread_take hn]

theorem lockstep_modify {f : ParseState σ → ParseState σ}
    (hf : ∀ st b, f { st with ibuf := b } = { f st with ibuf := b }) (hJ : ∀ st, I st → J (f st)) :
    InBlock lo hi (At p I) (modify f) (fun _ => At p J) := by
  have hbuf : ∀ st, (f st).ibuf = st.ibuf := fun st => congrArg (·.ibuf) (hf st st.ibuf)
  refine of_modify ?_ fun st hst => ⟨(congrArg (·.getp) (hbuf st)).trans hst.1, hJ st hst.2⟩
  rintro st st' ⟨hag, hrest⟩ -
  refine ⟨by rwa [hbuf, hbuf], ?_⟩
  rw [hrest, hf]

theorem lockstep_notify {err : UpdateErr} {data : List UInt8} [Stable I] :
    InBlock lo hi (At p I) (notify err data) (fun _ => At p I) :=
  lockstep_modify (fun _ _ => rfl) fun st => Stable.notified st _

end Rules

/-! ## The handlers -/

/-- What a handler keeps until it takes the attribute. -/
structure ParseState.Kept (sp : Speaker σ) (seen : UInt8 → Bool) (st : ParseState σ) : Prop where
  speaker : st.speaker = sp
  seen : st.seen = seen
  extra : st.attr.extra.isSome

/-- The paths are there where the flags say so. -/
structure ParseState.Good (sp : Speaker σ) (seen : UInt8 → Bool) (st : ParseState σ) :
    Prop extends st.Kept sp seen where
  aspath : st.attr.has .asPath → st.attr.aspath.isSome
  as4Path : st.attr.has .as4Path → st.as4Path.isSome

/-- The attribute lies in the block, and `p` is the position behind its header. -/
structure BgpAttrParserArgs.LiesIn (lo hi p : Nat) (args : BgpAttrParserArgs) : Prop where
  startp : lo ≤ args.startp
  total : args.startp + args.total ≤ hi
  value : p + args.length = args.startp + args.total

theorem BgpAttrParserArgs.LiesIn.room {lo hi p : Nat} {args : BgpAttrParserArgs} (h : args.LiesIn lo hi p) :
    p + args.length ≤ hi := h.value ▸ h.total

section Handlers
open ParseState (At Kept Good)
variable {lo hi p q : Nat} {I P : ParseState σ → Prop} {sp : Speaker σ} {seen : UInt8 → Bool} {args : BgpAttrParserArgs}
  (env : ParserEnv σ)

instance stable_kept : Stable (Kept sp seen) where
  ibuf _ _ h := { h with }
  notified _ _ h := { h with }

instance stable_good : Stable (Good sp seen) where
  ibuf _ _ h := { h with }
  notified _ _ h := { h with }

/-- Where it lets the parser go on, the attribute is skipped, and it is one of those that may be dropped. -/
theorem inBlock_bgpAttrMalformed [Stable I] (hargs : args.LiesIn lo hi p) (err : UpdateErr)
    (hlength : length ≤ args.total) : InBlock lo hi (At q I) (bgpAttrMalformed env args err length) fun ret st =>
      I st ∧ (ret = .proceed → st.ibuf.getp = args.startp + args.total ∧
        ofCode args.type ≠ some .asPath ∧ ofCode args.type ≠ some .as4Path) := by
  have htot := hargs.total
  refine get_bind ?_ fun st _ => ?_
  · rintro st st' h -
    rw [h.ibuf.slice hargs.startp (by omega)]
  split
  · exact lockstep_notify.bind fun _ => .of_pure fun _ h => ⟨h.2, nofun⟩
  refine (lockstep_setGetp (hargs.startp.trans (Nat.le_add_right ..)) htot).bind fun _ => ?_
  split
  -- those that are dropped, those that are an error, and the others
  any_goals
    rename_i hcode
    exact .of_pure fun _ h => ⟨h.2, fun _ => ⟨h.1, by simp [hcode]⟩⟩
  any_goals exact lockstep_notify.bind fun _ => .of_pure fun _ h => ⟨h.2, nofun⟩
  split <;> exact .of_pure fun _ h => ⟨h.2, nofun⟩

/-- A handler that stands behind the header of its attribute. -/
abbrev Handles (lo hi p : Nat) (sp : Speaker σ) (seen : UInt8 → Bool) (x : AttrParser σ AttrParseRet) : Prop :=
  InBlock lo hi (At p (Good sp seen)) x fun ret st => ret = .proceed → st.Good sp seen

theorem inBlock_refused (hargs : args.LiesIn lo hi p) (err : UpdateErr) (hlength : length ≤ args.total) :
    Handles lo hi q sp seen (bgpAttrMalformed env args err length) :=
  (inBlock_bgpAttrMalformed env hargs err hlength).mono (fun _ => id) fun _ _ h _ => h.1

theorem inBlock_modifyAttr {f : Attr → Attr} (hf : ∀ attr, (f attr).flag = attr.flag ∧ (f attr).aspath = attr.aspath ∧
      (attr.extra.isSome → (f attr).extra.isSome)) :
      InBlock lo hi (At q (Good sp seen)) (modifyAttr f) fun _ => At q (Good sp seen) := by
  refine lockstep_modify (fun _ _ => rfl) fun st h => ⟨⟨h.speaker, h.seen, (hf st.attr).2.2 h.extra⟩, ?_, ?_⟩
  · dsimp only [Attr.has]
    rw [(hf _).1, (hf _).2.1]
    exact h.aspath
  · dsimp only [Attr.has]
    rw [(hf _).1]
    exact h.as4Path

theorem inBlock_modifyExtra (f : AttrExtra → AttrExtra) :
    InBlock lo hi (At q (Good sp seen)) (modifyExtra f) fun _ => At q (Good sp seen) :=
  inBlock_modifyAttr fun _ => ⟨rfl, rfl, fun _ => rfl⟩

variable {a : BgpAttr}

theorem good_setFlag {st : ParseState σ} (h : st.Good sp seen) (ha : a = .asPath → st.attr.aspath.isSome)
    (ha4 : a = .as4Path → st.as4Path.isSome) :
    { st with attr := { st.attr with flag := st.attr.flag ||| a.flagBit } }.Good sp seen := by
  have hhas := @has_setFlag a st.attr { st.attr with flag := st.attr.flag ||| a.flagBit } rfl
  refine ⟨{ h with }, fun hset => ?_, fun hset => ?_⟩
  · rw [hhas, or_eq_true, decide_eq_true_eq] at hset
    exact hset.elim h.aspath fun heq => ha heq.symm
  · rw [hhas, or_eq_true, decide_eq_true_eq] at hset
    exact hset.elim h.as4Path fun heq => ha4 heq.symm

/-- A handler that is no handler of a path ends. -/
theorem inBlock_setFlag (ha : a ≠ .asPath) (ha4 : a ≠ .as4Path) : Handles lo hi q sp seen (setFlag a) :=
  bind (lockstep_modify (fun _ _ => rfl) fun _ h => good_setFlag h (absurd · ha) (absurd · ha4)) fun _ =>
    .of_pure fun _ h _ => h.2

section
variable (hargs : args.LiesIn lo hi p)
include hargs

theorem inBlock_bgpAttrOrigin : Handles lo hi p sp seen (bgpAttrOrigin env args) := by
  have hroom := hargs.room
  unfold bgpAttrOrigin
  split
  · exact inBlock_refused env hargs _ le_rfl
  refine (lockstep_getc (by omega)).bind fun origin => ?_
  refine bind (inBlock_modifyAttr fun _ => ⟨rfl, rfl, id⟩) fun _ => ?_
  split
  · exact inBlock_refused env hargs _ le_rfl
  · exact inBlock_setFlag nofun nofun

theorem inBlock_bgpAttrNexthop : Handles lo hi p sp seen (bgpAttrNexthop env args) := by
  have hroom := hargs.room
  unfold bgpAttrNexthop
  split
  · exact inBlock_refused env hargs _ le_rfl
  refine (lockstep_getIpv4 (by omega)).bind fun nexthop => ?_
  split
  · exact inBlock_refused env hargs _ le_rfl
  refine bind (inBlock_modifyAttr fun _ => ⟨rfl, rfl, id⟩) fun _ => ?_
  exact inBlock_setFlag nofun nofun

theorem inBlock_bgpAttrMed : Handles lo hi p sp seen (bgpAttrMed env args) := by
  have hroom := hargs.room
  unfold bgpAttrMed
  split
  · exact inBlock_refused env hargs _ le_rfl
  refine (lockstep_getl (by omega)).bind fun med => ?_
  refine bind (inBlock_modifyAttr fun _ => ⟨rfl, rfl, id⟩) fun _ => ?_
  exact inBlock_setFlag nofun nofun

theorem inBlock_bgpAttrLocalPref : Handles lo hi p sp seen (bgpAttrLocalPref env args) := by
  have hroom := hargs.room
  unfold bgpAttrLocalPref
  split
  · exact inBlock_refused env hargs _ le_rfl
  split
  · exact (lockstep_forwardGetp (by omega)).bind fun _ => .of_pure fun _ h _ => h.2
  refine (lockstep_getl (by omega)).bind fun localPref => ?_
  refine bind (inBlock_modifyAttr fun _ => ⟨rfl, rfl, id⟩) fun _ => ?_
  exact inBlock_setFlag nofun nofun

theorem inBlock_bgpAttrAtomic : Handles lo hi p sp seen (bgpAttrAtomic env args) := by
  unfold bgpAttrAtomic
  split
  · exact inBlock_refused env hargs _ le_rfl
  · exact inBlock_setFlag nofun nofun

theorem inBlock_bgpAttrAggregator : Handles lo hi p sp seen (bgpAttrAggregator env args) := by
  have hroom := hargs.room
  refine (inBlock_modifyExtra id).bind fun _ => ?_
  by_cases hlen : args.length ≠ if env.peer.cap .as4Rcv then 8 else 6
  · rw [if_pos hlen]
    exact inBlock_refused env hargs _ le_rfl
  rw [if_neg hlen]
  have hlen : args.length = (if env.peer.cap .as4Rcv then 4 else 2) + 4 := by
    rw [not_not.1 hlen]
    split <;> rfl
  refine bind (lockstep_read (lockstep_asnGet (env.peer.cap .as4Rcv) (by omega))) fun aggregatorAs => ?_
  refine bind (lockstep_getIpv4 (by omega)) fun aggregatorAddr => ?_
  exact (inBlock_modifyExtra _).bind fun _ => inBlock_setFlag nofun nofun

theorem inBlock_bgpAttrAs4Aggregator : Handles lo hi p sp seen (bgpAttrAs4Aggregator env args) := by
  have hroom := hargs.room
  unfold bgpAttrAs4Aggregator
  split
  · exact inBlock_refused env hargs _ (Nat.zero_le _)
  refine (lockstep_getl (by omega)).bind fun as4Aggregator => ?_
  refine (lockstep_getIpv4 (by omega)).bind fun as4AggregatorAddr => ?_
  refine bind (lockstep_modify (fun _ _ => rfl) fun st h => ?_) fun _ => inBlock_setFlag nofun nofun
  exact { h with }

theorem inBlock_bgpAttrCommunity : Handles lo hi p sp seen (bgpAttrCommunity env args) := by
  have hroom := hargs.room
  unfold bgpAttrCommunity
  split
  · exact bind (inBlock_modifyAttr fun _ => ⟨rfl, rfl, id⟩) fun _ => .of_pure fun _ h _ => h.2
  refine (lockstep_peek (by omega)).bind fun octets => ?_
  refine bind (inBlock_modifyAttr fun _ => ⟨rfl, rfl, id⟩) fun _ => ?_
  refine (lockstep_forwardGetp (by omega)).bind fun _ => ?_
  split
  · exact inBlock_refused env hargs _ le_rfl
  · exact inBlock_setFlag nofun nofun

theorem inBlock_bgpAttrOriginatorId : Handles lo hi p sp seen (bgpAttrOriginatorId env args) := by
  have hroom := hargs.room
  unfold bgpAttrOriginatorId
  split
  · exact inBlock_refused env hargs _ le_rfl
  refine (lockstep_getIpv4 (by omega)).bind fun originatorId => ?_
  exact (inBlock_modifyExtra _).bind fun _ => inBlock_setFlag nofun nofun

theorem inBlock_bgpAttrClusterList : Handles lo hi p sp seen (bgpAttrClusterList env args) := by
  have hroom := hargs.room
  unfold bgpAttrClusterList
  split
  · exact inBlock_refused env hargs _ le_rfl
  refine (lockstep_peek (by omega)).bind fun octets => ?_
  refine (inBlock_modifyExtra _).bind fun _ => ?_
  exact (lockstep_forwardGetp (by omega)).bind fun _ => inBlock_setFlag nofun nofun

theorem inBlock_bgpAttrExtCommunities : Handles lo hi p sp seen (bgpAttrExtCommunities env args) := by
  have hroom := hargs.room
  unfold bgpAttrExtCommunities
  split
  · refine bind (inBlock_modifyAttr fun _ => ⟨rfl, rfl, fun h => ?_⟩) fun _ => .of_pure fun _ h _ => h.2
    rwa [isSome_map]
  refine (lockstep_peek (by omega)).bind fun octets => ?_
  refine (inBlock_modifyExtra _).bind fun _ => ?_
  refine (lockstep_forwardGetp (by omega)).bind fun _ => ?_
  split
  · exact inBlock_refused env hargs _ le_rfl
  · exact inBlock_setFlag nofun nofun

theorem inBlock_aspathParse (use32bit : Bool) :
    InBlock lo hi (At p (Good sp seen)) (AttrParser.read fun s => aspathParse s args.length use32bit)
      fun _ st => st.Good sp seen :=
  (lockstep_read (lockstep_aspathParse use32bit hargs.room)).mono (fun _ => id) fun _ _ h => h.2

/-- A path that cannot be parsed is never dropped: the handler does not go on. -/
theorem inBlock_pathRefused (err : UpdateErr)
    (htype : ofCode args.type = some .asPath ∨ ofCode args.type = some .as4Path) :
    InBlock lo hi (At q (Kept sp seen)) (bgpAttrMalformed env args err 0) fun ret st => ret = .proceed →
    st.Good sp seen := by
  refine (inBlock_bgpAttrMalformed env hargs err (Nat.zero_le _)).mono (fun _ => id) ?_
  rintro ret st ⟨-, h⟩ hret
  obtain ⟨-, hnot, hnot4⟩ := h hret
  exact (htype.elim hnot hnot4).elim

theorem inBlock_bgpAttrAspath (htype : ofCode args.type = some .asPath) :
    Handles lo hi p sp seen (bgpAttrAspath env args) := by
  refine (inBlock_aspathParse hargs _).bind fun aspath => lockstep_anywhere fun q => ?_
  cases aspath with
  | none =>
    refine bind (lockstep_modify (fun _ _ => rfl) fun st h => ?_) fun _ =>
      inBlock_pathRefused env hargs _ (.inl htype)
    exact { h with }
  | some path =>
    refine bind (lockstep_modify (J := fun st => st.Good sp seen ∧ st.attr.aspath.isSome) (fun _ _ => rfl)
      fun st h => ⟨{ h with aspath := fun _ => rfl }, rfl⟩) fun _ => ?_
    exact bind (lockstep_modify (fun _ _ => rfl) fun _ h => good_setFlag h.1 (fun _ => h.2) nofun) fun _ =>
      .of_pure fun _ h _ => h.2

theorem inBlock_bgpAttrAs4Path (htype : ofCode args.type = some .as4Path) :
    Handles lo hi p sp seen (bgpAttrAs4Path env args) := by
  refine (inBlock_aspathParse hargs _).bind fun as4Path => lockstep_anywhere fun q => ?_
  cases as4Path with
  | none =>
    refine bind (lockstep_modify (fun _ _ => rfl) fun st h => ?_) fun _ =>
      inBlock_pathRefused env hargs _ (.inr htype)
    exact { h with }
  | some path =>
    refine bind (lockstep_modify (J := fun st => st.Good sp seen ∧ st.as4Path.isSome) (fun _ _ => rfl)
      fun st h => ⟨{ h with as4Path := fun _ => rfl }, rfl⟩) fun _ => ?_
    exact bind (lockstep_modify (fun _ _ => rfl) fun _ h => good_setFlag h.1 nofun fun _ => h.2) fun _ =>
      .of_pure fun _ h _ => h.2

end

theorem inBlock_mpNlriCheck [Stable I] (afi : UInt16) (safi : UInt8) (nlri : List UInt8) :
    InBlock lo hi (At q I) (mpNlriCheck afi safi nlri) fun _ => At q I := by
  unfold mpNlriCheck bgpNlriSanityCheck
  split
  · split
    · exact .of_pure fun _ => id
    · exact lockstep_notify.bind fun _ => .of_pure fun _ => id
  · exact .of_pure fun _ => id

theorem inBlock_mpNexthopParse (mpNexthopLen : UInt8) (hroom : q + mpNexthopLen.toNat ≤ hi) :
    InBlock lo hi (At q (Good sp seen)) (mpNexthopParse mpNexthopLen) fun known st =>
      st.Good sp seen ∧ (known = true → st.ibuf.getp = q + mpNexthopLen.toNat) := by
  unfold mpNexthopParse
  split
  case h_1 hlen =>
    refine (lockstep_getIpv4 (by omega)).bind fun addr => ?_
    refine (inBlock_modifyExtra _).bind fun _ => ?_
    refine bind (inBlock_modifyAttr fun _ => ⟨rfl, rfl, id⟩) fun _ => ?_
    exact .of_pure fun st h => ⟨h.2, fun _ => by rw [h.1, hlen]⟩
  case h_2 hlen =>
    refine (lockstep_getl (by omega)).bind fun _ => ?_
    refine (lockstep_getl (by omega)).bind fun _ => ?_
    refine (lockstep_getIpv4 (by omega)).bind fun addr => ?_
    refine (inBlock_modifyExtra _).bind fun _ => ?_
    exact .of_pure fun st h => ⟨h.2, fun _ => by rw [h.1, hlen]⟩
  case h_3 hlen =>
    refine (lockstep_get16 (by omega)).bind fun addr => ?_
    refine (inBlock_modifyExtra _).bind fun _ => ?_
    exact .of_pure fun st h => ⟨h.2, fun _ => by rw [h.1, hlen]⟩
  case h_4 hlen =>
    refine (lockstep_get16 (by omega)).bind fun addr => ?_
    refine (lockstep_get16 (by omega)).bind fun addr2 => ?_
    refine (inBlock_modifyExtra _).bind fun _ => ?_
    exact .of_pure fun st h => ⟨h.2, fun _ => by rw [h.1, hlen]⟩
  case h_5 => exact .of_pure fun st h => ⟨h.2, nofun⟩

theorem inBlock_notifypls :
    InBlock lo hi P (pure AttrParseRet.errorNotifypls) fun ret st => ret = .proceed → st.Good sp seen :=
  .of_pure fun _ _ h => by cases h

theorem inBlock_bgpMpUnreachParse (hargs : args.LiesIn lo hi p) : Handles lo hi p sp seen (bgpMpUnreachParse args) := by
  have hroom := hargs.room
  refine get_bind ?_ fun st hst => ?_
  · rintro st st' h ⟨hp, -⟩
    obtain ⟨hr, hr'⟩ := h.ibuf.readable_le (n := args.length) (by omega)
    simp [Nat.not_lt.2 hr, Nat.not_lt.2 hr']
  split
  · exact inBlock_notifypls
  rename_i hlen
  refine (lockstep_getw (by omega)).bind fun afi => ?_
  refine (lockstep_getc (by omega)).bind fun safi => ?_
  refine (lockstep_peek (by omega)).bind fun nlri => ?_
  refine (inBlock_mpNlriCheck afi safi nlri).bind fun ok => ?_
  split
  · exact inBlock_notifypls
  refine bind (lockstep_modify (J := Good sp seen) (fun _ _ => rfl) fun st h => ?_) fun _ => ?_
  · exact { h with }
  · exact (lockstep_forwardGetp (by omega)).bind fun _ => inBlock_setFlag nofun nofun

theorem inBlock_bgpMpReachParse (hargs : args.LiesIn lo hi p) : Handles lo hi p sp seen (bgpMpReachParse args) := by
  have hroom := hargs.room
  refine (inBlock_modifyExtra id).bind fun _ => ?_
  refine lockstep_getp ?_
  refine get_bind ?_ fun st hst => ?_
  · rintro st st' h ⟨hp, -⟩
    obtain ⟨hr, hr'⟩ := h.ibuf.readable_le (n := args.length) (by omega)
    simp [Nat.not_lt.2 hr, Nat.not_lt.2 hr']
  split
  · exact inBlock_notifypls
  rename_i hlen
  refine (lockstep_getw (by omega)).bind fun afi => ?_
  refine (lockstep_getc (by omega)).bind fun safi => ?_
  refine (lockstep_getc (by omega)).bind fun mpNexthopLen => ?_
  refine (inBlock_modifyExtra _).bind fun _ => ?_
  refine lockstep_getp ?_
  split
  · exact inBlock_notifypls
  rename_i hnh
  refine (inBlock_mpNexthopParse mpNexthopLen (by omega)).bind fun known => ?_
  cases known with
  | false => exact inBlock_notifypls
  | true =>
    refine mono (J := At (p + 4 + mpNexthopLen.toNat) (Good sp seen)) ?_ (fun st h => ⟨h.2 rfl, h.1⟩) fun _ _ => id
    refine lockstep_getp ?_
    split
    · exact inBlock_notifypls
    refine (lockstep_getc (by omega)).bind fun _ => ?_
    refine lockstep_getp ?_
    refine get_bind ?_ fun st hst => ?_
    · rintro st st' h ⟨hp, -⟩
      obtain ⟨hr, hr'⟩ := h.ibuf.readable_le (n := args.length - (p + 4 + mpNexthopLen.toNat + 1 - p)) (by omega)
      simp [Nat.not_lt.2 hr, Nat.not_lt.2 hr']
    split
    · exact inBlock_notifypls
    refine (lockstep_peek (by omega)).bind fun nlri => ?_
    refine (inBlock_mpNlriCheck afi safi nlri).bind fun ok => ?_
    split
    · exact inBlock_notifypls
    refine bind (lockstep_modify (J := Good sp seen) (fun _ _ => rfl) fun st h => ?_) fun _ => ?_
    · exact { h with }
    · exact (lockstep_forwardGetp (by omega)).bind fun _ => inBlock_setFlag nofun nofun

theorem agreeOn_setOctetFlag {s s' : Stream} (h : s.AgreeOn lo hi s') {pos : Nat} {flag : UInt8} :
    (setOctetFlag s pos flag).AgreeOn lo hi (setOctetFlag s' pos flag) where
  getp := h.getp
  lo_le := h.lo_le
  getp_hi := h.getp_hi
  hi_le := by rw [setOctetFlag, length_modify]; exact h.hi_le
  hi_le' := by rw [setOctetFlag, length_modify]; exact h.hi_le'
  octets i hlo hhi := by simp [setOctetFlag, getElem?_modify, h.octets i hlo hhi]

/-- An attribute that is not known is marked in the buffer, at its own first octet. -/
theorem inBlock_bgpAttrUnknown (hargs : args.LiesIn lo hi p) : Handles lo hi p sp seen (bgpAttrUnknown env args) := by
  obtain ⟨hstartp, htot, hval⟩ := id hargs
  refine (lockstep_forwardGetp (by omega)).bind fun _ => ?_
  split
  · exact inBlock_refused env hargs _ le_rfl
  split
  · exact .of_pure fun _ h _ => h.2
  refine bind (Q := fun _ => At (p + args.length) (Good sp seen)) (of_modify ?_ ?_) fun _ => ?_
  · rintro st st' h -
    exact ⟨agreeOn_setOctetFlag h.ibuf, by rw [h.rest]⟩
  · exact fun st h => ⟨h.1, stable_good.ibuf st _ h.2⟩
  refine get_bind ?_ fun st _ => ?_
  · rintro st st' h -
    rw [h.ibuf.slice hstartp htot]
  · exact (inBlock_modifyExtra _).bind fun _ => .of_pure fun _ h _ => h.2

theorem code_of_ofCode {c : UInt8} (h : ofCode c = some a) : a.code = c :=
  beq_iff_eq.1 (@List.find?_some _ (fun b : BgpAttr => b.code == c) a _ h)

/-- Every attribute but the Tarpan one. -/
theorem inBlock_bgpAttrHandle (hargs : args.LiesIn lo hi p) (htype : args.type ≠ tarpan.code) :
    Handles lo hi p sp seen (bgpAttrHandle env args) := by
  unfold bgpAttrHandle
  split
  case h_1 => exact inBlock_bgpAttrOrigin env hargs
  case h_2 h => exact inBlock_bgpAttrAspath env hargs h
  case h_3 h => exact inBlock_bgpAttrAs4Path env hargs h
  case h_4 => exact inBlock_bgpAttrNexthop env hargs
  case h_5 => exact inBlock_bgpAttrMed env hargs
  case h_6 => exact inBlock_bgpAttrLocalPref env hargs
  case h_7 => exact inBlock_bgpAttrAtomic env hargs
  case h_8 => exact inBlock_bgpAttrAggregator env hargs
  case h_9 => exact inBlock_bgpAttrAs4Aggregator env hargs
  case h_10 => exact inBlock_bgpAttrCommunity env hargs
  case h_11 => exact inBlock_bgpAttrOriginatorId env hargs
  case h_12 => exact inBlock_bgpAttrClusterList env hargs
  case h_13 => exact inBlock_bgpMpReachParse hargs
  case h_14 => exact inBlock_bgpMpUnreachParse hargs
  case h_15 => exact inBlock_bgpAttrExtCommunities env hargs
  case h_16 h => exact absurd (code_of_ofCode h).symm htype
  case h_17 => exact inBlock_bgpAttrUnknown env hargs
  case h_18 => exact inBlock_bgpAttrUnknown env hargs

theorem inBlock_attrParseError (err : UpdateErr) :
    InBlock lo hi P (attrParseError err) fun ret _ => ret = some .error :=
  fun st st' h _ => ⟨_, _, _, rfl, rfl, ⟨h.ibuf, by rw [h.rest]⟩, rfl⟩

/-- The part of the loop's body behind the header: where it goes on, the reader stands at the end of the attribute. -/
theorem inBlock_bgpAttrBody (hargs : args.LiesIn lo hi p) (htype : args.type ≠ tarpan.code) :
    InBlock lo hi (At p (Good sp seen)) (bgpAttrBody env args (args.startp + args.total)) fun ret st =>
      ret ≠ some .proceed ∧ (ret = none → At (args.startp + args.total) (Good sp seen) st) := by
  have herr : ∀ {P : ParseState σ → Prop} err, InBlock lo hi P (attrParseError err) fun ret st =>
      ret ≠ some .proceed ∧ (ret = none → At (args.startp + args.total) (Good sp seen) st) := by
    intro P err
    refine (inBlock_attrParseError err).mono (fun _ => id) ?_
    rintro _ _ rfl
    exact ⟨nofun, nofun⟩
  unfold bgpAttrBody
  split
  · refine (inBlock_bgpAttrMalformed env hargs _ le_rfl).bind fun ret => ?_
    cases ret with
    | proceed => exact .of_pure fun _ h => ⟨nofun, fun _ => ⟨(h.2 rfl).1, h.1⟩⟩
    | error | withdraw | errorNotifypls => exact .of_pure fun _ _ => ⟨nofun, nofun⟩
  refine (inBlock_bgpAttrHandle env hargs htype).bind fun ret => ?_
  cases ret with
  | proceed =>
    refine mono (J := Good sp seen) (lockstep_anywhere fun q => ?_) (fun _ h => h rfl) fun _ _ => id
    refine lockstep_getp ?_
    split_ifs with hend
    · exact herr _
    · rw [← not_not.1 hend]
      exact .of_pure fun _ h => ⟨nofun, fun _ => h⟩
  | error | withdraw => exact .of_pure fun _ _ => ⟨nofun, nofun⟩
  | errorNotifypls => exact herr _

end Handlers

end Tarpan.Bgpd
