/-
Reading inside a block of a stream: two streams that agree on the octets of the block, and differ before it and
behind it in any way, are read alike as long as the reader stays in the block.
-/
import Tarpan.Base.Lockstep
import Tarpan.Lib.Stream

namespace Tarpan.Lib

open Base List

/-- The streams have the same octets from `lo` up to `hi`, and their readers stand at the same place in there. -/
structure Stream.AgreeOn (lo hi : Nat) (s s' : Stream) : Prop where
  getp : s'.getp = s.getp
  lo_le : lo ≤ s.getp
  getp_hi : s.getp ≤ hi
  hi_le : hi ≤ s.data.length
  hi_le' : hi ≤ s'.data.length
  octets : ∀ i, lo ≤ i → i < hi → s'.data[i]? = s.data[i]?

namespace Stream.AgreeOn

variable {lo hi n : Nat} {s s' : Stream}

theorem refl (hlo : lo ≤ s.getp) (hhi : s.getp ≤ hi) (h : hi ≤ s.data.length) : s.AgreeOn lo hi s :=
  ⟨rfl, hlo, hhi, h, h, fun _ _ _ => rfl⟩

section
variable (h : s.AgreeOn lo hi s')
include h

theorem slice {pos : Nat} (hlo : lo ≤ pos) (hhi : pos + n ≤ hi) :
    (s'.data.drop pos).take n = (s.data.drop pos).take n := by
  apply ext_getElem?
  intro i
  rw [getElem?_take, getElem?_take, getElem?_drop, getElem?_drop]
  split
  · exact h.octets (pos + i) (by omega) (by omega)
  · rfl

theorem unread_take (hn : s.getp + n ≤ hi) : s'.unread.take n = s.unread.take n := by
  unfold Stream.unread
  rw [h.getp]
  exact h.slice h.lo_le hn

theorem readable_le (hn : s.getp + n ≤ hi) : n ≤ s.readable ∧ n ≤ s'.readable := by
  have hgetp := h.getp
  have hle := h.hi_le
  have hle' := h.hi_le'
  unfold Stream.readable Stream.endp
  omega

theorem moved {t t' : Stream} (ht : t.data = s.data) (ht' : t'.data = s'.data)
    (hgetp : t'.getp = t.getp) (hlo : lo ≤ t.getp) (hhi : t.getp ≤ hi) : t.AgreeOn lo hi t' where
  getp := hgetp
  lo_le := hlo
  getp_hi := hhi
  hi_le := by rw [ht]; exact h.hi_le
  hi_le' := by rw [ht']; exact h.hi_le'
  octets i := by rw [ht, ht']; exact h.octets i

theorem advance (hn : s.getp + n ≤ hi) : (s.advance n).AgreeOn lo hi (s'.advance n) := by
  obtain ⟨hr, hr'⟩ := h.readable_le hn
  have hlo := h.lo_le
  refine h.moved rfl rfl ?_ ?_ ?_
  · rw [advance_getp hr, advance_getp hr', h.getp]
  · rw [advance_getp hr]
    omega
  · rwa [advance_getp hr]

end

end Stream.AgreeOn

/-! ## The reads -/

section Reads
variable {lo hi p n : Nat}

theorem lockstep_streamGet (hn : p + n ≤ hi) :
    Lockstep (Stream.AgreeOn lo hi) (·.getp = p) (streamGet · n) (fun _ s => s.getp = p + n) := by
  rintro s s' h rfl
  obtain ⟨hr, hr'⟩ := h.readable_le hn
  refine ⟨_, _, _, streamGet_of_le hr, ?_, h.advance hn, advance_getp hr⟩
  dsimp only
  rw [streamGet_of_le hr', h.unread_take hn]

theorem lockstep_streamGetc (hn : p + 1 ≤ hi) :
    Lockstep (Stream.AgreeOn lo hi) (·.getp = p) streamGetc (fun _ s => s.getp = p + 1) :=
  (lockstep_streamGet hn).map (fun bs => UInt8.ofNat (beVal bs)) fun _ _ => id

theorem lockstep_streamGetw (hn : p + 2 ≤ hi) :
    Lockstep (Stream.AgreeOn lo hi) (·.getp = p) streamGetw (fun _ s => s.getp = p + 2) :=
  (lockstep_streamGet hn).map (fun bs => UInt16.ofNat (beVal bs)) fun _ _ => id

theorem lockstep_streamGetl (hn : p + 4 ≤ hi) :
    Lockstep (Stream.AgreeOn lo hi) (·.getp = p) streamGetl (fun _ s => s.getp = p + 4) :=
  (lockstep_streamGet hn).map (fun bs => UInt32.ofNat (beVal bs)) fun _ _ => id

theorem lockstep_streamForwardGetp (hn : p + n ≤ hi) :
    Lockstep (Stream.AgreeOn lo hi) (·.getp = p) (fun s => (streamForwardGetp s n).map ((), ·))
      (fun _ s => s.getp = p + n) := by
  rintro s s' h rfl
  obtain ⟨hr, hr'⟩ := h.readable_le hn
  refine ⟨(), _, _, ?_, ?_, h.advance hn, advance_getp hr⟩
  · dsimp only
    rw [streamForwardGetp_eq, if_pos hr]
    rfl
  · dsimp only
    rw [streamForwardGetp_eq, if_pos hr']
    rfl

theorem lockstep_streamSetGetp {P : Stream → Prop} (hlo : lo ≤ n) (hhi : n ≤ hi) :
    Lockstep (Stream.AgreeOn lo hi) P (fun s => (streamSetGetp s n).map ((), ·)) (fun _ s => s.getp = n) := by
  intro s s' h _
  have hle := hhi.trans h.hi_le
  have hle' := hhi.trans h.hi_le'
  refine ⟨(), { s with getp := n, getp_le := hle }, { s' with getp := n, getp_le := hle' }, ?_, ?_,
    h.moved rfl rfl rfl hlo hhi, rfl⟩
  · dsimp only
    rw [streamSetGetp, dif_pos hle]
    rfl
  · dsimp only
    rw [streamSetGetp, dif_pos hle']
    rfl

end Reads

end Tarpan.Lib
