import VitaUtility.Lib.Thumb

/-!
# Routines of `cpu.S`

The labels are those of the source. `sceKernelCpuGetPaddr`, which asks the memory management unit, and `WaitL2CacheReg`,
which waits for the cache controller, are called but are not in the program.
-/

namespace VitaUtility.VfsMountOld
open Thumb
open Thumb.Reg Thumb.Op Thumb.Address

inductive CpuLabel where
  | my_memcpy | loc_810000E8 | loc_810000F6 | loc_810000FE | loc_8100010A | loc_81000122 | loc_81000126 | loc_81000132
  | loc_8100013E | loc_81000144 | loc_81000146
  | sceKernelCpuDcacheCleanMVACRange | loc_0x81021706
  | sceKernelCpuIcacheInvalidateRange | loc_81021696
  | sceKernelCpuDcacheWritebackInvalidateRange | loc_81021726
  | sceKernelCpuGetPaddr | WaitL2CacheReg
  | sceKernelCpuIcacheAndL2WritebackInvalidateRange | loc_81022F0C | loc_81022F12 | loc_81022F3C | loc_81022F4A | loc_81022F58
  | sub_8102403C | loc_81024052 | loc_81024060
  deriving DecidableEq

/-- `SceL2CacheRegBase` is the address of that variable. -/
def cpuS (SceL2CacheRegBase : UInt32) : Program CpuLabel := [
  (.my_memcpy, [
    push [r0, r4, lr],
    subs r2 r2 0x20,
    .bc .lo .loc_81000122,
    adds r2 r2 r0]),
  (.loc_810000E8, [
    lsls r3 r0 0x1e,
    .bc .eq .loc_810000FE,
    ldrb r3 (post r1 1),
    strb r3 (post r0 1),
    .b .loc_810000E8]),
  (.loc_810000F6, [
    ldr ip (post r1 4),
    str ip (post r0 4)]),
  (.loc_810000FE, [
    lsls r3 r0 0x1b,
    .bc .ne .loc_810000F6,
    subs r2 r2 r0,
    .bc .lo .loc_81000122,
    lsls r3 r1 0x1e,
    .bc .ne .loc_81000146]),
  (.loc_8100010A, [
    ldm r1 [r3, r4, ip, lr],
    pld,
    vldmia r1 [0, 1],
    subs r2 r2 0x20,
    stm r0 [r3, r4, ip, lr],
    vstmia r0 [0, 1],
    .bc .hs .loc_8100010A]),
  (.loc_81000122, [
    adds r2 r2 0x1c,
    .bc .lt .loc_81000132]),
  (.loc_81000126, [
    ldr ip (post r1 4),
    subs r2 r2 4,
    str ip (post r0 4),
    .bc .ge .loc_81000126]),
  (.loc_81000132, [
    lsls r3 r2 0x1f,
    .bc .lo .loc_8100013E,
    ldrh r3 (post r1 2),
    strh r3 (post r0 2)]),
  (.loc_8100013E, [
    .bc .pl .loc_81000144,
    ldrb r3 (off r1 0),
    strb r3 (off r0 0)]),
  (.loc_81000144, [
    .popPc [r0, r4]]),
  (.loc_81000146, [
    vld1 r1 [0, 1, 2, 3],
    pld,
    subs r2 r2 0x20,
    vstmia r0 [0, 1, 2, 3],
    .bc .hs .loc_81000146,
    .b .loc_81000122,
    nop,
    nop]),
  (.sceKernelCpuDcacheCleanMVACRange, [
    adds r2 r0 r1,
    subs r2 r2 1,
    lsrs r2 r2 5,
    subs r2 r2 (.lsr r0 5),
    dsb]),
  (.loc_0x81021706, [
    mcr r0 7 10 1,
    adds r0 r0 0x20,
    subs r2 r2 1,
    .bc .hs .loc_0x81021706,
    dsb,
    .bxLr]),
  (.sceKernelCpuIcacheInvalidateRange, [
    adds r2 r0 r1,
    subs r2 r2 1,
    lsrs r2 r2 5,
    subs r2 r2 (.lsr r0 5)]),
  (.loc_81021696, [
    mcr r0 7 5 1,
    adds r0 r0 0x20,
    subs r2 r2 1,
    .bc .hs .loc_81021696,
    dsb,
    .bxLr]),
  (.sceKernelCpuDcacheWritebackInvalidateRange, [
    adds r2 r0 r1,
    subs r2 r2 1,
    lsrs r2 r2 5,
    subs r2 r2 (.lsr r0 5),
    dsb]),
  (.loc_81021726, [
    mcr r0 7 14 1,
    adds r0 r0 0x20,
    subs r2 r2 1,
    .bc .hs .loc_81021726,
    dsb,
    .bxLr]),
  (.sceKernelCpuIcacheAndL2WritebackInvalidateRange, [
    push [r4, r5, r6, r7, r8, sb, sl, lr],
    sub sp sp 8,
    mov r8 r1,
    mov sl lr,
    mov sb r0,
    .cbz r1 .loc_81022F3C,
    ubfx r4 r0 0 0xc,
    mov r6 r0,
    rsb r4 r4 0x1000,
    mov r5 r1,
    .b .loc_81022F12]),
  (.loc_81022F0C, [
    add r6 r6 r4,
    mov r4 0x1000]),
  (.loc_81022F12, [
    mov r0 r6,
    mov r1 sp,
    .bl .sceKernelCpuGetPaddr,
    cmp r0 0,
    .bc .lt .loc_81022F4A,
    cmp r4 r5,
    movc .hs r4 r5,
    ldr r0 (off sp 0),
    mov r1 r4,
    .bl .sub_8102403C,
    subs r5 r5 r4,
    .bc .ne .loc_81022F0C,
    .bl .WaitL2CacheReg,
    mov r0 sb,
    mov r1 r8,
    .bl .sceKernelCpuIcacheInvalidateRange]),
  (.loc_81022F3C, [
    add sp sp 8,
    .popPc [r4, r5, r6, r7, r8, sb, sl]]),
  (.loc_81022F4A, [
    movw r0 0xb138,
    mov r1 sl,
    movt r0 0x8102,
    .bkpt]),
  (.loc_81022F58, [
    .bkpt]),
  (.sub_8102403C, [
    .cbz r1 .loc_81024060,
    movw r2 (SceL2CacheRegBase &&& 0xFFFF),
    movt r2 (SceL2CacheRegBase >>> 16),
    ldr r2 (off r2 0),
    and r3 r0 0x1f,
    bic r0 r0 0x1f,
    adds r1 r1 r3]),
  (.loc_81024052, [
    str r0 (off r2 0x7f0),
    adds r0 r0 0x20,
    subs r1 r1 0x20,
    .bc .gt .loc_81024052,
    dmb]),
  (.loc_81024060, [
    .bxLr])]

/-- `cpu.S` as it is loaded: the address of `SceL2CacheRegBase`, those of the code, and the routines that it calls. -/
structure Loaded where
  l2CacheRegBase : UInt32
  addr : List (Instr CpuLabel) → UInt32
  ext : CpuLabel → Option (Machine → Option Machine)

namespace Loaded
variable (C : Loaded)

def env : Env CpuLabel := ⟨cpuS C.l2CacheRegBase, C.addr, C.ext⟩

/-- From the label on the code returns, and then `Q` holds. -/
abbrev Runs (l : CpuLabel) (s : Machine) (Q : UInt32 → Machine → Prop) : Prop := Ends C.env (C.env.code l) s Q

end Loaded

/-- A machine with nothing in its memory and registers. -/
def idleMachine : Machine := ⟨fun _ => 0, false, false, false, false, fun _ => 0, []⟩

end VitaUtility.VfsMountOld
