import GeoNS.CString

/-!
# IPv4 addresses as text

What `inet_ntoa` and `inet_ntop` write for an address, and what can stand in
such a text.
-/

namespace Inet

open CString

structure Ipv4 where
  a : UInt8
  b : UInt8
  c : UInt8
  d : UInt8
  deriving DecidableEq, Repr

def inetNtoa (ip : Ipv4) : Bytes :=
  dec ip.a.toNat ++ 46 :: (dec ip.b.toNat ++ 46 :: (dec ip.c.toNat ++ 46 :: dec ip.d.toNat))

def DottedQuad (s : Bytes) : Prop := ∃ ip, s = inetNtoa ip

theorem dec_dot_inj (h : dec m ++ 46 :: s = dec n ++ 46 :: t) : m = n ∧ s = t := by
  have htake (n : Nat) (t : Bytes) : digits (dec n ++ 46 :: t) = dec n :=
    digits_append (fun _ => isdigit_of_mem_dec) (by decide) t
  have hmn : dec m = dec n := by rw [← htake m s, h, htake]
  rw [hmn] at h
  exact ⟨dec_injective hmn, (List.cons.inj (List.append_cancel_left h)).2⟩

theorem inetNtoa_injective : Function.Injective inetNtoa := by
  rintro ⟨a, b, c, d⟩ ⟨a', b', c', d'⟩ h
  obtain ⟨ha, h⟩ := dec_dot_inj h
  obtain ⟨hb, h⟩ := dec_dot_inj h
  obtain ⟨hc, h⟩ := dec_dot_inj h
  have hd := dec_injective h
  simp_all [UInt8.toNat_inj]

theorem mem_inetNtoa (h : c ∈ inetNtoa ip) : isdigit c ∨ c = 46 := by
  simp only [inetNtoa, List.mem_append, List.mem_cons] at h
  rcases h with h | rfl | h | rfl | h | rfl | h
  · exact .inl (isdigit_of_mem_dec h)
  · exact .inr rfl
  · exact .inl (isdigit_of_mem_dec h)
  · exact .inr rfl
  · exact .inl (isdigit_of_mem_dec h)
  · exact .inr rfl
  · exact .inl (isdigit_of_mem_dec h)

theorem length_inetNtoa_le (ip : Ipv4) : (inetNtoa ip).length ≤ 15 := by
  have hdec (b : UInt8) : (dec b.toNat).length ≤ 3 :=
    length_dec_le (by have := b.toNat_lt; omega)
  have ha := hdec ip.a
  have hb := hdec ip.b
  have hc := hdec ip.c
  have hd := hdec ip.d
  simp only [inetNtoa, List.length_append, List.length_cons]
  omega

theorem DottedQuad.length_le (h : DottedQuad addr) : addr.length ≤ 15 := by
  obtain ⟨ip, rfl⟩ := h
  exact length_inetNtoa_le ip

theorem DottedQuad.mem (h : DottedQuad addr) : ∀ c ∈ addr, isdigit c ∨ c = 46 := by
  obtain ⟨ip, rfl⟩ := h
  exact fun c => mem_inetNtoa

theorem DottedQuad.notMem (h : DottedQuad addr) (hdigit : isdigit c = false) (hdot : c ≠ 46) :
    c ∉ addr := by
  intro hc
  rcases h.mem c hc with h | h
  · simp [hdigit] at h
  · exact hdot h

theorem DottedQuad.ne_nil (h : DottedQuad addr) : addr ≠ [] := by
  obtain ⟨ip, rfl⟩ := h
  simp [inetNtoa, dec_ne_nil]

end Inet
