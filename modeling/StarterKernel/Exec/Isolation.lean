import StarterKernel.Exec.Contents

/-!
# What a program sees of the previous one

The address space that `exec_setup` enters user mode with is a function of the module
image alone.  Two machines that differ in what ran before, in the order of the freelist
and in the contents of the free frames show a new program the same lower half.
-/

namespace StarterKernel

variable {size name leftRoot rightRoot : Nat} {leftPool rightPool : Set Nat}
variable {left right : Machine} {leftFree rightFree : List Nat}
variable {image : Nat -> UInt8} {bytes : List UInt8}
variable {hdr : Stivale2Struct} {ourmod : Stivale2Module}

/-- After `exec_setup` of the same module the lower halves of two machines are equal
as functions from addresses to permissions and bytes. -/
theorem exec_forgets_previous_program
    (leftReady : ExecReady name bytes ourmod.beginAddress size image leftRoot leftPool
      left leftFree)
    (rightReady : ExecReady name bytes ourmod.beginAddress size image rightRoot rightPool
      right rightFree)
    (first : hdr.modules.find? (fun ourmod => ourmod.string = bytes) = some ourmod)
    (elf : ElfImage image size) (pages : SeparatePages (programHeaders image) size) :
    ∃ leftAfter rightAfter,
      execSetup hdr name left = .ok (.entered (usermodeEntry image)) leftAfter ∧
      execSetup hdr name right = .ok (.entered (usermodeEntry image)) rightAfter ∧
      ∀ address, lowerSpace leftAfter.memory leftRoot address =
        lowerSpace rightAfter.memory rightRoot address := by
  obtain ⟨leftAfter, _, leftEnters, _, _, leftSpace⟩ :=
    leftReady.execSetup_image first elf pages
  obtain ⟨rightAfter, _, rightEnters, _, _, rightSpace⟩ :=
    rightReady.execSetup_image first elf pages
  refine ⟨leftAfter, rightAfter, leftEnters, rightEnters, ?_⟩
  intro address
  rw [leftSpace, rightSpace]

/-- Before and after a program maps a page of its own. -/
theorem exec_forgets_previous_program_bootMachine :
    ∃ left right leftAfter rightAfter : Machine,
      lowerSpace left.memory bootRoot 0x800000 ≠
        lowerSpace right.memory bootRoot 0x800000 ∧
      execSetup (namedHdr bssBytes) (bootImageBase + bssBytes.length) left =
        .ok (.entered (usermodeEntry fun i => bssBytes.getD i 0)) leftAfter ∧
      execSetup (namedHdr bssBytes) (bootImageBase + bssBytes.length) right =
        .ok (.entered (usermodeEntry fun i => bssBytes.getD i 0)) rightAfter ∧
      ∀ address, lowerSpace leftAfter.memory bootRoot address =
        lowerSpace rightAfter.memory bootRoot address := by
  obtain ⟨left, free, _, empty, many, ready⟩ :=
    boot_exec_ready bssBytes (by decide +kernel) (by decide +kernel)
  obtain ⟨rest, extend, maps⟩ := ready.owned.vmMap_extends true true false
    (show LowerHalf 0x800000 by decide)
  obtain ⟨count, _, space⟩ := maps (by decide) many.noZero (le_trans (by decide) many.many)
  have frames := many.many
  have few : 4 * (elfPhnum (fun i => bssBytes.getD i 0) + 8) ≤ 252 := by decide +kernel
  obtain ⟨leftAfter, rightAfter, leftEnters, rightEnters, same⟩ :=
    exec_forgets_previous_program ready
      (ready.mono extend (zero_not_mem_bootPool _) (by omega))
      (find_namedHdr bssBytes) elfImage_bssBytes onePageSegments_bssBytes.pages
  refine ⟨left, _, leftAfter, rightAfter, ?_, leftEnters, rightEnters, same⟩
  rw [space, empty, PagedSpace.map_vacant rfl rfl]
  exact nofun

end StarterKernel
