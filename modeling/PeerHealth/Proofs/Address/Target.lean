import PeerHealth.Address.Literal
import PeerHealth.Proofs.Address.Spelling

/-! The target to dial for an address. Main statement: all spellings of an IPv6 address have one
target, which is that of no other address, and a text that is no IPv6 address is dialled as it
is. -/

namespace PeerHealth.Address

section Targets

variable {address : String} {port : UInt16} {ip ip' : IPv6}

theorem dialTarget_of_parse? (h : IPv6.parse? address = some ip) (port : UInt16) :
    dialTarget address port =
      "[" ++ String.ofList ip.render ++ "]:" ++ String.ofList (Number.digits port.toNat) := by
  rw [dialTarget, h]

theorem render_inj (h : ip.render = ip'.render) : ip = ip' := by
  have hparse := IPv6.parse?_render ip
  rw [h, IPv6.parse?_render ip'] at hparse
  exact (Option.some.inj hparse).symm

/-- The target for an IPv6 address is a text of the address in brackets, itself dialled by the same
target, so that two texts have the same target exactly if they stand for the same address; any other
text is used as it is. Which texts stand for an address is told by how it is spelled. -/
theorem targets_by_address (port : UInt16) :
    (∀ address ip, IPv6.parse? address = some ip → ∃ usual,
      dialTarget address port =
        "[" ++ usual ++ "]:" ++ String.ofList (Number.digits port.toNat) ∧
      IPv6.parse? usual = some ip ∧ dialTarget usual port = dialTarget address port) ∧
    (∀ address other ip ip', IPv6.parse? address = some ip → IPv6.parse? other = some ip' →
      (dialTarget address port = dialTarget other port ↔ ip = ip')) ∧
    (∀ address, IPv6.parse? address = none →
      dialTarget address port = address ++ ":" ++ String.ofList (Number.digits port.toNat)) ∧
    ∀ address ip, IPv6.parse? address = some ip ↔ IPv6.Spells ip address.toList := by
  refine ⟨fun address ip h => ?_, fun address other ip ip' h h' => ⟨fun heq => ?_, ?_⟩,
    fun address h => ?_, fun address ip => IPv6.parse?_eq_some_iff⟩
  · refine ⟨String.ofList ip.render, dialTarget_of_parse? h port, IPv6.parse?_render ip, ?_⟩
    rw [dialTarget_of_parse? h, dialTarget_of_parse? (IPv6.parse?_render ip)]
  · rw [dialTarget_of_parse? h, dialTarget_of_parse? h', ← String.toList_inj] at heq
    simp only [String.toList_append, String.toList_ofList, List.append_assoc,
      List.append_cancel_left_eq, List.append_cancel_right_eq] at heq
    exact render_inj heq
  · rintro rfl
    rw [dialTarget_of_parse? h, dialTarget_of_parse? h']
  · rw [dialTarget, h]

end Targets

/-- The address ::ffff:192.0.2.33. -/
def mappedAddress : IPv6 := ⟨[0, 0, 0, 0, 0, 0xffff, 0xc000, 0x0221], rfl⟩

/-- Two spellings of one address, that differ in what is left out, in letter case, in zeros in front
and in how the end is written, and a spelling of another address. -/
theorem targets_by_address_of_mapped :
    IPv6.parse? "0:0::FFFF:C000:0221" = some mappedAddress ∧
    IPv6.parse? "::ffff:192.0.2.33" = some mappedAddress ∧
    IPv6.parse? "::c000:221" = some ⟨[0, 0, 0, 0, 0, 0, 0xc000, 0x0221], rfl⟩ ∧
    dialTarget "0:0::FFFF:C000:0221" 5500 = dialTarget "::ffff:192.0.2.33" 5500 ∧
    dialTarget "0:0::FFFF:C000:0221" 5500 ≠ dialTarget "::c000:221" 5500 ∧
    IPv6.parse? "192.0.2.33" = none ∧ dialTarget "192.0.2.33" 5500 = "192.0.2.33:5500" := by
  have hgroups : IPv6.parse? "0:0::FFFF:C000:0221" = some mappedAddress := by decide +kernel
  have hdotted : IPv6.parse? "::ffff:192.0.2.33" = some mappedAddress := by decide +kernel
  have hother : IPv6.parse? "::c000:221" = some ⟨[0, 0, 0, 0, 0, 0, 0xc000, 0x0221], rfl⟩ := by
    decide +kernel
  have hnone : IPv6.parse? "192.0.2.33" = none := by decide +kernel
  have hport : String.ofList (Number.digits (5500 : UInt16).toNat) = "5500" := by decide +kernel
  obtain ⟨-, hsame, hverbatim, -⟩ := targets_by_address 5500
  refine ⟨hgroups, hdotted, hother, (hsame _ _ _ _ hgroups hdotted).mpr rfl, fun heq => ?_, hnone,
    ?_⟩
  · exact absurd ((hsame _ _ _ _ hgroups hother).mp heq) (by decide)
  · rw [hverbatim _ hnone, hport]
    rfl

end PeerHealth.Address
