import FrameLens.Register.Basic

/-!
Conventional names of registers on the supported targets.
-/
namespace FrameLens

inductive Arch where
  | x86_64
  | aarch64
  deriving DecidableEq, Repr

namespace Arch

def text : Arch → String
  | x86_64 => "x86_64"
  | aarch64 => "aarch64"

/-- The register that a conventional frame keeps its base in. -/
def framePointer : Arch → Register
  | x86_64 => ⟨6⟩
  | aarch64 => ⟨29⟩

/-- Names made of a stem and a running number, for `count` registers from `first` on. -/
def numbered (stem : String) (first count : Nat) (start : Nat) : List (Nat × String) :=
  (List.range count).map fun i => (first + i, stem ++ toString (start + i))

/-- Register numbers with their names, in the order of the numbers. -/
def nameTable : Arch → List (Nat × String)
  | x86_64 =>
    [(0, "rax"), (1, "rdx"), (2, "rcx"), (3, "rbx"), (4, "rsi"), (5, "rdi"), (6, "rbp"),
      (7, "rsp")] ++ numbered "r" 8 8 8 ++ [(16, "RA")] ++ numbered "xmm" 17 16 0 ++
    numbered "st" 33 8 0 ++ numbered "mm" 41 8 0 ++
    [(49, "rFLAGS"), (50, "es"), (51, "cs"), (52, "ss"), (53, "ds"), (54, "fs"), (55, "gs"),
      (58, "fs.base"), (59, "gs.base"), (62, "tr"), (63, "ldtr"), (64, "mxcsr"), (65, "fcw"),
      (66, "fsw")] ++ numbered "xmm" 67 16 16 ++ numbered "k" 118 8 0
  | aarch64 =>
    numbered "X" 0 31 0 ++
    [(31, "SP"), (32, "PC"), (33, "ELR_mode"), (34, "RA_SIGN_STATE"), (35, "TPIDRRO_EL0"),
      (36, "TPIDR_EL0"), (37, "TPIDR_EL1"), (38, "TPIDR_EL2"), (39, "TPIDR_EL3"), (46, "VG"),
      (47, "FFR")] ++ numbered "P" 48 16 0 ++ numbered "V" 64 32 0 ++ numbered "Z" 96 32 0

def registerName? (arch : Arch) (r : Register) : Option String :=
  (arch.nameTable.find? fun entry => entry.1 = r.number.toNat).map Prod.snd

/-- The register with exactly this name. -/
def registerNamed? (arch : Arch) (name : String) : Option Register :=
  (arch.nameTable.find? fun entry => entry.2 = name).map fun entry => ⟨UInt16.ofNat entry.1⟩

/-- The register with this name as given, else with its ASCII letters made small, else with them
made capital. -/
def findRegister? (arch : Arch) (name : String) : Option Register :=
  arch.registerNamed? name <|> arch.registerNamed? name.toLower <|>
    arch.registerNamed? name.toUpper

end Arch
end FrameLens
