import StarterKernel.Exec.KernelMemory
import StarterKernel.Paging.Edit

/-!
# Plain memory

The memory that a program of C knows: each byte has an address of its own, and writing
it changes no other byte.  For the kernel these are mapped addresses whose physical bytes
are apart from each other and from the page tables.
-/

namespace StarterKernel

open StateError

/-- Addresses the kernel may read, and some of them that it may also write, with the
physical bytes they stand for. -/
structure Plain (machine : Machine) (readable writable : Set Nat) (physical : Nat -> Nat) :
    Prop where
  subset : ∀ address ∈ writable, address ∈ readable
  mapped : ∀ address ∈ readable, Canonical address ∧ ∃ mapped,
    translation machine.memory machine.root address = some mapped ∧
      mapped.physical = physical address ∧
      (address ∈ writable -> (mapped.writable || !machine.writeProtect) = true)
  apart : ∀ address ∈ writable, ∀ other ∈ readable,
    physical other = physical address -> other = address
  noTable : ∀ address ∈ writable, ∀ path,
    tableAt machine.memory machine.root path ≠ some (frameOf (physical address))

/-- The machine with another byte in its memory. -/
def Machine.poke (machine : Machine) (position : Nat) (value : UInt8) : Machine :=
  { machine with memory := Function.update machine.memory position value }

variable {machine : Machine} {readable writable : Set Nat} {physical : Nat -> Nat}
variable {address : Nat} {value : UInt8}

theorem Machine.poke_memory (machine : Machine) (position : Nat) (value : UInt8) :
    (machine.poke position value).memory = Function.update machine.memory position value :=
  rfl

theorem Machine.isFrame_root (machine : Machine) : IsFrame machine.root := by
  constructor <;> unfold Machine.root <;> omega

namespace Plain

theorem loadByte (plain : Plain machine readable writable physical)
    (inside : address ∈ readable) :
    Kernel.loadByte address machine = .ok (machine.memory (physical address)) machine := by
  obtain ⟨canonical, mapped, translates, same, _⟩ := plain.mapped address inside
  exact Kernel.loadByte_ok_iff.mpr ⟨canonical, ⟨mapped, translates, by rw [same]⟩, rfl⟩

theorem storeByte (plain : Plain machine readable writable physical)
    (inside : address ∈ writable) :
    Kernel.storeByte address value machine =
      .ok () (machine.poke (physical address) value) := by
  obtain ⟨canonical, mapped, translates, same, allowed⟩ :=
    plain.mapped address (plain.subset address inside)
  exact Kernel.storeByte_ok_iff.mpr
    ⟨canonical, mapped, translates, allowed inside, by rw [same, Machine.poke]⟩

/-- Writing a plain byte leaves the page tables alone. -/
theorem treeWalk_poke (plain : Plain machine readable writable physical)
    (inside : address ∈ writable) (query : List Nat) :
    treeWalk (machine.poke (physical address) value).memory machine.root query =
      treeWalk machine.memory machine.root query := by
  refine treeWalk_congr machine.isFrame_root (fun path frame reached => ?_) query
  intro position inFrame
  refine Function.update_of_ne ?_ _ _
  rintro rfl
  exact plain.noTable address inside path (inFrame.symm ▸ reached)

/-- Plain memory stays plain when a byte of it is written. -/
theorem poke (plain : Plain machine readable writable physical)
    (inside : address ∈ writable) :
    Plain (machine.poke (physical address) value) readable writable physical where
  subset := plain.subset
  mapped other member := by
    have same : translation (machine.poke (physical address) value).memory machine.root other =
        translation machine.memory machine.root other := by
      rw [translation_eq, translation_eq, plain.treeWalk_poke inside]
    obtain ⟨canonical, mapped, translates, rest⟩ := plain.mapped other member
    exact ⟨canonical, mapped, same.trans translates, rest⟩
  apart := plain.apart
  noTable other member path := by
    have same : tableAt (machine.poke (physical address) value).memory machine.root path =
        tableAt machine.memory machine.root path :=
      tableAt_congr (plain.treeWalk_poke inside path)
    intro reached
    exact plain.noTable other member path (same.symm.trans reached)

/-- Plain memory on fewer addresses. -/
theorem mono {fewer : Set Nat} {here : Nat -> Nat}
    (plain : Plain machine readable writable physical) (subset : fewer ⊆ readable)
    (writes : fewer ⊆ writable) (same : ∀ address ∈ fewer, here address = physical address) :
    Plain machine fewer fewer here where
  subset _ member := member
  mapped address member := by
    obtain ⟨canonical, mapped, translates, isPhysical, allowed⟩ :=
      plain.mapped address (subset member)
    exact ⟨canonical, mapped, translates, isPhysical.trans (same address member).symm,
      fun _ => allowed (writes member)⟩
  apart address member other otherMember isSame := by
    rw [same address member, same other otherMember] at isSame
    exact plain.apart address (writes member) other (subset otherMember) isSame
  noTable address member path := by
    rw [same address member]
    exact plain.noTable address (writes member) path

/-- What the addresses hold after a byte is written. -/
theorem view_poke (plain : Plain machine readable writable physical)
    (inside : address ∈ writable) {other : Nat} (member : other ∈ readable) :
    (machine.poke (physical address) value).memory (physical other) =
      Function.update (fun cell => machine.memory (physical cell)) address value other := by
  rw [Machine.poke_memory]
  by_cases same : other = address
  · rw [same, Function.update_self, Function.update_self]
  · have different : physical other ≠ physical address :=
      mt (plain.apart address inside other member) same
    rw [Function.update_of_ne different, Function.update_of_ne same]

end Plain
end StarterKernel
