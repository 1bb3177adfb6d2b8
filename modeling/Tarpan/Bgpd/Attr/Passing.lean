/-
What the loop of `bgp_attr_parse` leaves alone while it reads an attribute other than AGGREGATOR and AS4_AGGREGATOR:
what it keeps of these two, and the AS paths of other attributes.
-/
import Tarpan.Base.Frames
import Tarpan.Bgpd.Attr.Value

namespace Tarpan.Bgpd

open Base Lib AttrParser List Option

/-! ## What stays -/

/-- While an attribute of the type is read, what is kept of the two stays, and so does the AS path of another. -/
structure AttrPasses (type : UInt8) (attr attr' : Attr) : Prop where
  has : attr'.has .aggregator = attr.has .aggregator
  has4 : attr'.has .as4Aggregator = attr.has .as4Aggregator
  extra : ∀ {extra}, attr.extra = some extra → ∃ extra', attr'.extra = some extra' ∧
    extra'.aggregatorAs = extra.aggregatorAs ∧ extra'.aggregatorAddr = extra.aggregatorAddr
  aspath : type ≠ BgpAttr.asPath.code → attr'.aspath = attr.aspath
  has4Path : type ≠ BgpAttr.as4Path.code → attr'.has .as4Path = attr.has .as4Path

theorem AttrPasses.same {type : UInt8} {attr : Attr} : AttrPasses type attr attr :=
  ⟨rfl, rfl, fun h => ⟨_, h, rfl, rfl⟩, fun _ => rfl, fun _ => rfl⟩

variable {σ : Type}

structure Passes (type : UInt8) (st st' : ParseState σ) : Prop where
  attr : AttrPasses type st.attr st'.attr
  seen : st'.seen = st.seen
  as4 : st'.as4Aggregator = st.as4Aggregator ∧ st'.as4AggregatorAddr = st.as4AggregatorAddr
  as4Path : type ≠ BgpAttr.as4Path.code → st'.as4Path = st.as4Path

variable {type : UInt8}

instance : IsPreorder (ParseState σ) (Passes type) where
  refl _ := ⟨.same, rfl, ⟨rfl, rfl⟩, fun _ => rfl⟩
  trans _ _ _ h h' := by
    refine ⟨⟨h'.attr.has.trans h.attr.has, h'.attr.has4.trans h.attr.has4, fun hextra => ?_,
      fun ht => (h'.attr.aspath ht).trans (h.attr.aspath ht),
        fun ht => (h'.attr.has4Path ht).trans (h.attr.has4Path ht)⟩,
      h'.seen.trans h.seen, ⟨h'.as4.1.trans h.as4.1, h'.as4.2.trans h.as4.2⟩,
      fun ht => (h'.as4Path ht).trans (h.as4Path ht)⟩
    obtain ⟨extra1, hextra1, has1, haddr1⟩ := h.attr.extra hextra
    obtain ⟨extra2, hextra2, has2, haddr2⟩ := h'.attr.extra hextra1
    exact ⟨extra2, hextra2, has2.trans has1, haddr2.trans haddr1⟩

/-! ## Handlers -/

section Rules
variable {α : Type}

theorem frames_read {f : Stream → Option (α × Stream)} : Frames (Passes type) (AttrParser.read f : AttrParser σ α) := by
  intro st a st' h
  obtain ⟨_, -, h⟩ := map_eq_some_iff.1 h
  cases h
  exact ⟨.same, rfl, ⟨rfl, rfl⟩, fun _ => rfl⟩

theorem frames_onSpeaker {f : Speaker σ → Option (α × Speaker σ)} : Frames (Passes type) (onSpeaker f) := by
  intro st a st' h
  obtain ⟨_, -, h⟩ := map_eq_some_iff.1 h
  cases h
  exact ⟨.same, rfl, ⟨rfl, rfl⟩, fun _ => rfl⟩

theorem frames_look {f : ParseState σ → α} : Frames (Passes type) (fun st => some (f st, st) : AttrParser σ α) := by
  rintro st _ _ ⟨⟩
  exact refl st

theorem frames_modifyAttr {f : Attr → Attr} (hf : ∀ attr, AttrPasses type attr (f attr)) :
    Frames (Passes type) (modifyAttr f : AttrParser σ Unit) :=
  .of_modify fun st => ⟨hf st.attr, rfl, ⟨rfl, rfl⟩, fun _ => rfl⟩

theorem frames_modifyExtra {f : AttrExtra → AttrExtra}
    (hf : ∀ e, (f e).aggregatorAs = e.aggregatorAs ∧ (f e).aggregatorAddr = e.aggregatorAddr) :
    Frames (Passes type) (modifyExtra f : AttrParser σ Unit) := by
  refine frames_modifyAttr fun attr => ⟨rfl, rfl, fun {extra} h => ?_, fun _ => rfl, fun _ => rfl⟩
  rw [h]
  exact ⟨_, rfl, hf extra⟩

theorem frames_mapExtra {f : AttrExtra → AttrExtra}
    (hf : ∀ e, (f e).aggregatorAs = e.aggregatorAs ∧ (f e).aggregatorAddr = e.aggregatorAddr) :
    Frames (Passes type) (modifyAttr fun attr => { attr with extra := attr.extra.map f } : AttrParser σ Unit) := by
  refine frames_modifyAttr fun attr => ⟨rfl, rfl, fun {extra} h => ?_, fun _ => rfl, fun _ => rfl⟩
  exact ⟨f extra, by rw [h]; rfl, hf extra⟩

theorem frames_setFlag {a : BgpAttr} (ha : BgpAttr.aggregator ≠ a) (ha4 : BgpAttr.as4Aggregator ≠ a)
    (hpath : BgpAttr.as4Path = a → type = BgpAttr.as4Path.code) :
    Frames (Passes type) (setFlag a : AttrParser σ AttrParseRet) := by
  refine .bind (frames_modifyAttr fun attr => ?_) fun _ => .of_pure _
  have hhas : ∀ {k}, k ≠ a → Attr.has { attr with flag := attr.flag ||| a.flagBit } k = attr.has k := fun {k} hk => by
    rw [has_setFlag rfl, decide_eq_false hk, Bool.or_false]
  exact ⟨hhas ha, hhas ha4, fun h => ⟨_, h, rfl, rfl⟩, fun _ => rfl, fun ht => hhas fun h => ht (hpath h)⟩

end Rules

variable {env : ParserEnv σ} {args : BgpAttrParserArgs}

theorem frames_bgpAttrMalformed (err : UpdateErr) (length : Nat) :
    Frames (Passes type) (bgpAttrMalformed env args err length) := by
  have herr : ∀ data, Frames (Passes type) (do notify err data; return .error : AttrParser σ AttrParseRet) :=
    fun data =>
    (Frames.of_modify fun _ => by exact ⟨.same, rfl, ⟨rfl, rfl⟩, fun _ => rfl⟩).bind fun _ => .of_pure _
  refine Frames.of_get.bind fun st => ?_
  dsimp only
  split
  · exact herr _
  refine frames_read.bind fun _ => ?_
  split
  all_goals first | exact .of_pure _ | exact herr _ | (split <;> exact .of_pure _)

/-- An AS path changes while it is read, and no other. -/
theorem frames_aspaths : Frames (Passes BgpAttr.asPath.code) (bgpAttrAspath env args) ∧
    Frames (Passes BgpAttr.as4Path.code) (bgpAttrAs4Path env args) := by
  refine ⟨frames_read.bind fun aspath => (frames_modifyAttr fun attr => ?_).bind fun _ => ?_,
    frames_read.bind fun aspath => (Frames.of_modify fun st => ?_).bind fun _ => ?_⟩
  · exact ⟨rfl, rfl, fun h => ⟨_, h, rfl, rfl⟩, fun hne => absurd rfl hne, fun _ => rfl⟩
  · split
    · exact frames_bgpAttrMalformed _ _
    · exact frames_setFlag nofun nofun nofun
  · exact ⟨.same, rfl, ⟨rfl, rfl⟩, fun hne => absurd rfl hne⟩
  · split
    · exact frames_bgpAttrMalformed _ _
    · exact frames_setFlag nofun nofun fun _ => rfl

/-- The attribute with a type code has this code. -/
theorem ofCode_eq_some {c : UInt8} {a : BgpAttr} (h : BgpAttr.ofCode c = some a) : c = a.code := by
  have := find?_some h
  exact (beq_iff_eq.1 this).symm

/-- The rules are applied along the program. -/
theorem frames_bgpAttrHandle (hagg : args.type ≠ BgpAttr.aggregator.code)
    (hagg4 : args.type ≠ BgpAttr.as4Aggregator.code) : Frames (Passes args.type) (bgpAttrHandle env args) := by
  unfold bgpAttrHandle bgpAttrOrigin bgpAttrNexthop bgpAttrMed bgpAttrLocalPref bgpAttrAtomic bgpAttrCommunity
    bgpAttrOriginatorId bgpAttrClusterList bgpAttrExtCommunities bgpAttrTarpan bgpAttrUnknown
    bgpMpReachParse bgpMpUnreachParse
  split <;> rename_i hcode
  case h_2 => exact ofCode_eq_some hcode ▸ frames_aspaths.1
  case h_3 => exact ofCode_eq_some hcode ▸ frames_aspaths.2
  case h_8 => exact absurd (ofCode_eq_some hcode) hagg
  case h_9 => exact absurd (ofCode_eq_some hcode) hagg4
  all_goals
    repeat' first
      | with_reducible refine Frames.bind ?_ fun _ => ?_
      | with_reducible exact Frames.of_pure _
      | with_reducible exact Frames.of_get
      | exact frames_setFlag nofun nofun nofun
      | exact frames_modifyExtra fun _ => ⟨rfl, rfl⟩
      | split
      | exact frames_bgpAttrMalformed _ _
      | exact frames_read
      | exact frames_look
      | exact frames_onSpeaker
      | exact frames_mapExtra fun _ => ⟨rfl, rfl⟩
      | exact frames_modifyAttr fun _ => ⟨rfl, rfl, fun h => ⟨_, h, rfl, rfl⟩, fun _ => rfl, fun _ => rfl⟩
      | exact .of_modify fun _ => ⟨.same, rfl, ⟨rfl, rfl⟩, fun _ => rfl⟩
      | unfold mpNlriCheck bgpNlriSanityCheck
      | unfold mpNexthopParse

/-! ## The body of the loop -/

variable {st st' : ParseState σ}

/-- There is an AS path, and one of AS4_PATH where this has come. -/
structure PathsThere (st : ParseState σ) : Prop where
  aspath : st.attr.aspath.isSome
  as4Path : st.attr.has .as4Path = true → st.as4Path.isSome

theorem Passes.pathsThere (h : Passes type st st') (hpaths : PathsThere st)
    (haspath : type = BgpAttr.asPath.code → st'.attr.aspath.isSome)
    (has4Path : type = BgpAttr.as4Path.code → st'.as4Path.isSome) : PathsThere st' := by
  constructor
  · by_cases ht : type = BgpAttr.asPath.code
    · exact haspath ht
    · rw [h.attr.aspath ht]
      exact hpaths.aspath
  · intro hhas
    by_cases ht : type = BgpAttr.as4Path.code
    · exact has4Path ht
    · rw [h.attr.has4Path ht] at hhas
      rw [h.as4Path ht]
      exact hpaths.as4Path hhas

/-- The loop does not go on behind an AS path that is malformed. -/
theorem not_bgpAttrMalformed_proceed {a : BgpAttr} (ha : a = .asPath ∨ a = .as4Path) (htype : args.type = a.code)
    (err : UpdateErr) (length : Nat) : bgpAttrMalformed env args err length st ≠ some (.proceed, st') := by
  have hcode : BgpAttr.ofCode args.type = some a := by
    rw [htype]
    rcases ha with rfl | rfl <;> decide
  intro h
  unfold bgpAttrMalformed at h
  rw [hcode, run_bind (get_run _)] at h
  split at h
  · cases h
  · obtain ⟨_, -, h⟩ := bind_eq_some_iff.1 h
    rcases ha with rfl | rfl
    · cases h
    · dsimp only at h
      split at h <;> cases h

theorem bgpAttrHandle_pathsThere (hagg : args.type ≠ BgpAttr.aggregator.code)
    (hagg4 : args.type ≠ BgpAttr.as4Aggregator.code) (h : bgpAttrHandle env args st = some (.proceed, st'))
    (hpaths : PathsThere st) : PathsThere st' := by
  refine (frames_bgpAttrHandle hagg hagg4 _ _ _ h).pathsThere hpaths (fun htype => ?_) fun htype => ?_
  · have hhandle : bgpAttrHandle env args = bgpAttrAspath env args := by
      unfold bgpAttrHandle
      rw [show BgpAttr.ofCode args.type = some .asPath by rw [htype]; decide]
    rw [hhandle] at h
    obtain ⟨⟨aspath, st1⟩, -, h⟩ := bind_eq_some_iff.1 h
    cases aspath with
    | none => exact absurd h (not_bgpAttrMalformed_proceed (.inl rfl) htype _ _)
    | some p =>
      cases h
      rfl
  · have hhandle : bgpAttrHandle env args = bgpAttrAs4Path env args := by
      unfold bgpAttrHandle
      rw [show BgpAttr.ofCode args.type = some .as4Path by rw [htype]; decide]
    rw [hhandle] at h
    obtain ⟨⟨aspath, st1⟩, -, h⟩ := bind_eq_some_iff.1 h
    cases aspath with
    | none => exact absurd h (not_bgpAttrMalformed_proceed (.inr rfl) htype _ _)
    | some p =>
      cases h
      rfl

theorem bgpAttrBody_passes {attrEndp : Nat} (hagg : args.type ≠ BgpAttr.aggregator.code)
    (hagg4 : args.type ≠ BgpAttr.as4Aggregator.code) (h : bgpAttrBody env args attrEndp st = some (none, st')) :
    Passes args.type st st' ∧ (PathsThere st → PathsThere st') := by
  unfold bgpAttrBody at h
  split at h
  · obtain ⟨⟨ret, st1⟩, hmal, h⟩ := bind_eq_some_iff.1 h
    cases ret <;> cases h
    have hpass : Passes args.type st st' := frames_bgpAttrMalformed _ _ _ _ _ hmal
    refine ⟨hpass, fun hpaths => hpass.pathsThere hpaths (fun htype => ?_) fun htype => ?_⟩
    · exact absurd hmal (not_bgpAttrMalformed_proceed (.inl rfl) htype _ _)
    · exact absurd hmal (not_bgpAttrMalformed_proceed (.inr rfl) htype _ _)
  · obtain ⟨⟨ret, st1⟩, hhandle, h⟩ := bind_eq_some_iff.1 h
    cases ret with
    | proceed =>
      dsimp only at h
      rw [run_bind (getp_run _)] at h
      split at h <;> cases h
      exact ⟨frames_bgpAttrHandle hagg hagg4 _ _ _ hhandle, bgpAttrHandle_pathsThere hagg hagg4 hhandle⟩
    | _ => cases h

end Tarpan.Bgpd
