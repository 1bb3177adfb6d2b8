/-
The store of interned Tarpan attributes (bgp_tarpan.c). Key and comparison are taken from the low
half of the message's address, not from the message, so what `tarpan_intern` returns depends on
where messages are allocated.
-/
import Tarpan.Bgpd.Intern
import Tarpan.Bgpd.Types

namespace Tarpan.Bgpd

/-! ## Interning -/

/-- `tarpan_hash_make`: the pointer to the message, cut to `unsigned int`. -/
def tarpanHashMake (tarpan : TarpanAttr) : UInt32 := (tarpan.message.getD 0).toUInt32
def tarpanCmp (p1 p2 : TarpanAttr) : Bool := tarpanHashMake p1 == tarpanHashMake p2

/-- The table of interned attributes and the messages in memory. -/
structure TarpanStore where
  table : InternTable TarpanAttr
  messages : Messages

open TarpanStore

namespace TarpanStore

def empty : TarpanStore := ⟨.empty, fun _ => none⟩
def Live (s : TarpanStore) (x : TarpanAttr) : Prop := 0 < s.table.refcnt x
def content (s : TarpanStore) (x : TarpanAttr) : Option TarpanMsg := x.message.bind s.messages

end TarpanStore

/-- The part of `tarpan_free` that frees the message. -/
def freeMessage (messages : Messages) (tarpan : TarpanAttr) : Messages :=
  match tarpan.message with
  | some m => Function.update messages m none
  | none => messages

/-- `tarpan_intern`: the argument is freed where another attribute is found. -/
def tarpanIntern (s : TarpanStore) (tarp : TarpanAttr) : Option (TarpanAttr × TarpanStore) :=
  (intern tarpanHashMake tarpanCmp s.table tarp).map fun (find, table) =>
    (find, ⟨table, if find = tarp then s.messages else freeMessage s.messages tarp⟩)

/-- `tarpan_unintern`: the attribute is freed with the last reference. -/
def tarpanUnintern (s : TarpanStore) (tarp : TarpanAttr) : Option TarpanStore :=
  (unintern tarpanHashMake tarpanCmp s.table tarp).map fun table =>
    ⟨table, if table.refcnt tarp = 0 then freeMessage s.messages tarp else s.messages⟩

theorem tarpanCmp_equivalence : Equivalence fun x y => tarpanCmp x y = true := by
  unfold tarpanCmp
  simp only [beq_iff_eq]
  exact ⟨fun _ => rfl, fun h => h.symm, fun h h' => h.trans h'⟩

theorem sameEntry_iff {x y : TarpanAttr} :
    SameEntry tarpanHashMake tarpanCmp x y ↔ tarpanHashMake x = tarpanHashMake y := by
  simp [SameEntry, tarpanCmp]

theorem freeMessage_of_ne {messages : Messages} {t x : TarpanAttr} (h : x.message ≠ t.message) :
    x.message.bind (freeMessage messages t) = x.message.bind messages := by
  unfold freeMessage
  cases ht : t.message with
  | none => rfl
  | some m =>
    cases hx : x.message with
    | none => rfl
    | some k =>
      have hne : k ≠ m := by
        rintro rfl
        exact h (hx.trans ht.symm)
      simp [Function.update_of_ne hne]

/-! ## One call -/

namespace TarpanStore

/-- The table is in order and the messages of its attributes are in memory. -/
structure Ok (s : TarpanStore) : Prop where
  table : s.table.Ok tarpanHashMake tarpanCmp
  allocated : ∀ x, s.Live x → (s.content x).isSome

theorem empty_ok : empty.Ok := ⟨InternTable.empty_ok, fun _ hx => absurd hx (Nat.lt_irrefl 0)⟩

/-- `t` and its message lie where nothing is allocated. -/
structure Fresh (s : TarpanStore) (t : TarpanAttr) : Prop where
  addr : ∀ x, s.Live x → x.addr ≠ t.addr
  message : ∃ m, t.message = some m ∧ s.messages m = none

/-- The store with a new attribute that is not interned yet. -/
def place (s : TarpanStore) (t : TarpanAttr) (msg : TarpanMsg) : TarpanStore :=
  match t.message with
  | some m => { s with messages := Function.update s.messages m (some msg) }
  | none => s

theorem place_table (s : TarpanStore) (t : TarpanAttr) (msg : TarpanMsg) : (s.place t msg).table = s.table := by
  unfold place
  split <;> rfl

variable {s : TarpanStore} {t x : TarpanAttr} {msg : TarpanMsg}

theorem Fresh.not_live (h : s.Fresh t) : s.table.refcnt t = 0 := by
  by_contra hne
  exact h.addr t (Nat.pos_of_ne_zero hne) rfl

theorem Fresh.message_ne (h : s.Fresh t) (hs : s.Ok) (hx : s.Live x) : x.message ≠ t.message := by
  obtain ⟨m, hm, hnone⟩ := h.message
  intro heq
  have := hs.allocated x hx
  rw [content, heq, hm, Option.bind_some, hnone] at this
  cases this

theorem place_content_self (h : t.message.isSome) : (s.place t msg).content t = some msg := by
  obtain ⟨m, hm⟩ := Option.isSome_iff_exists.1 h
  simp [place, content, hm]

theorem place_content_of_ne (hne : x.message ≠ t.message) : (s.place t msg).content x = s.content x := by
  unfold place content
  split
  · rename_i m hm
    cases hxm : x.message with
    | none => rfl
    | some k =>
      refine Function.update_of_ne (fun hk => hne ?_) _ _
      rw [hxm, hm, hk]
  · rfl

theorem place_ok (hs : s.Ok) : (s.place t msg).Ok := by
  refine ⟨by rw [place_table]; exact hs.table, fun x hx => ?_⟩
  rw [Live, place_table] at hx
  by_cases hxt : x.message = t.message
  · have hsome := hs.allocated x hx
    cases hm : t.message with
    | none =>
      rw [content, hxt, hm] at hsome
      cases hsome
    | some m => simp [place, content, hxt, hm]
  · rw [place_content_of_ne hxt]
    exact hs.allocated x hx

theorem Fresh.isSome (h : s.Fresh t) : t.message.isSome := by
  obtain ⟨m, hm, -⟩ := h.message
  rw [hm]
  rfl

/-- `tarpan_intern` on a new attribute: it returns the live attribute whose message's address agrees
with the new one in the low half, or enters the new one. Live attributes keep their messages. -/
theorem tarpanIntern_spec (msg : TarpanMsg) (hs : s.Ok) (hfr : s.Fresh t) :
    ∃ find s', tarpanIntern (s.place t msg) t = some (find, s') ∧ s'.Ok ∧
      (∀ x, s'.Live x ↔ s.Live x ∨ x = find) ∧ (∀ x, s.Live x → s'.content x = s.content x) ∧
      tarpanHashMake find = tarpanHashMake t ∧ (find = t ∧ s'.content t = some msg ∨ s.Live find) ∧
      ∀ x, s.Live x → tarpanHashMake x = tarpanHashMake t → x = find := by
  obtain ⟨find, table, hint, htab, hrc, hent, hfind, huniq⟩ := intern_spec tarpanCmp_equivalence hs.table hfr.not_live
  have hlive : ∀ x, 0 < table.refcnt x ↔ s.Live x ∨ x = find := by
    intro x
    rw [hrc, Function.update_apply]
    split_ifs with hx
    · simp [hx]
    · simp [hx, Live]
  have hcontent : ∀ x, s.Live x →
      x.message.bind (if find = t then (s.place t msg).messages else freeMessage (s.place t msg).messages t) =
        s.content x := by
    intro x hx
    have hne := hfr.message_ne hs hx
    split
    · exact place_content_of_ne hne
    · exact (freeMessage_of_ne hne).trans (place_content_of_ne hne)
  have hnew : find = t ∧ t.message.bind (if find = t then (s.place t msg).messages
      else freeMessage (s.place t msg).messages t) = some msg ∨ s.Live find := by
    rcases hfind with rfl | hfind
    · rw [if_pos rfl]
      exact .inl ⟨rfl, place_content_self hfr.isSome⟩
    · exact .inr hfind
  refine ⟨find, ⟨table, _⟩, by rw [tarpanIntern, place_table, hint]; rfl, ⟨htab, fun x hx => ?_⟩, hlive, hcontent,
    sameEntry_iff.1 hent, hnew, fun x hx hkey => huniq x hx (sameEntry_iff.2 hkey)⟩
  rcases (hlive x).1 hx with hx | rfl
  · exact (congrArg Option.isSome (hcontent x hx)).trans (hs.allocated x hx)
  rcases hnew with ⟨rfl, hmsg⟩ | hx
  · exact congrArg Option.isSome hmsg
  · exact (congrArg Option.isSome (hcontent x hx)).trans (hs.allocated x hx)

/-- A new attribute with the message `msg` is interned as one with the message `m`: where the address of the message
agrees in the low half with that of a live attribute, that one's message counts. -/
def InternsAs (s : TarpanStore) (t : TarpanAttr) (msg m : TarpanMsg) : Prop :=
  (∀ x, s.Live x → tarpanHashMake x ≠ tarpanHashMake t) ∧ m = msg ∨
    ∃ x, s.Live x ∧ tarpanHashMake x = tarpanHashMake t ∧ s.content x = some m

theorem tarpanIntern_internsAs (msg : TarpanMsg) (hs : s.Ok) (hfr : s.Fresh t) :
    ∃ find s' m, tarpanIntern (s.place t msg) t = some (find, s') ∧ s.InternsAs t msg m ∧ s'.content find = some m := by
  obtain ⟨find, s', hint, -, -, hkeep, hkey, hfind, huniq⟩ := tarpanIntern_spec msg hs hfr
  rcases hfind with ⟨rfl, hmsg⟩ | hlive
  · refine ⟨find, s', msg, hint, .inl ⟨fun x hx hxt => ?_, rfl⟩, hmsg⟩
    exact hfr.addr x hx (congrArg TarpanAttr.addr (huniq x hx hxt))
  · obtain ⟨m, hm⟩ := Option.isSome_iff_exists.1 (hs.allocated find hlive)
    exact ⟨find, s', m, hint, .inr ⟨find, hlive, hkey, hm⟩, (hkeep find hlive).trans hm⟩

theorem InternsAs.unique (hs : s.Ok) {m m' : TarpanMsg} (h : s.InternsAs t msg m) (h' : s.InternsAs t msg m') :
    m = m' := by
  rcases h with ⟨hnone, rfl⟩ | ⟨x, hx, hxt, hm⟩ <;> rcases h' with ⟨hnone', rfl⟩ | ⟨y, hy, hyt, hm'⟩
  · rfl
  · exact absurd hyt (hnone y hy)
  · exact absurd hxt (hnone' x hx)
  · have hxy := hs.table.unique tarpanCmp_equivalence hx hy (sameEntry_iff.2 (hxt.trans hyt.symm))
    rw [hxy, hm'] at hm
    exact (Option.some.inj hm).symm

/-- `tarpan_unintern` on a live attribute: the others stay with their messages. -/
theorem tarpanUnintern_spec (hs : s.Ok) (hx : s.Live x) : ∃ s', tarpanUnintern s x = some s' ∧ s'.Ok ∧
      ∀ y, s'.Live y → s.Live y ∧ s'.content y = s.content y := by
  obtain ⟨table, hunintern, htab, hrc⟩ := unintern_spec tarpanCmp_equivalence hs.table hx
  have hkeep : ∀ y, 0 < table.refcnt y → s.Live y ∧
      y.message.bind (if table.refcnt x = 0 then freeMessage s.messages x else s.messages) = s.content y := by
    intro y hy
    have hylive : s.Live y := by
      rw [hrc, Function.update_apply] at hy
      split_ifs at hy with hyx
      · rw [hyx]
        exact hx
      · exact hy
    refine ⟨hylive, ?_⟩
    split_ifs with hzero
    · apply freeMessage_of_ne
      intro hmsg
      -- attributes with one message have one key, and the table holds one attribute for it
      have hyx := hs.table.unique tarpanCmp_equivalence hylive hx
        (sameEntry_iff.2 (by rw [tarpanHashMake, hmsg, tarpanHashMake]))
      rw [hyx, hzero] at hy
      exact Nat.lt_irrefl 0 hy
    · rfl
  refine ⟨⟨table, _⟩, by rw [tarpanUnintern, hunintern]; rfl, ⟨htab, fun y hy => ?_⟩, hkeep⟩
  exact (congrArg Option.isSome (hkeep y hy).2).trans (hs.allocated y (hkeep y hy).1)

end TarpanStore

end Tarpan.Bgpd
