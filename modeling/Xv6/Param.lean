-- The sizes of `param.h`, `fs.h` and `riscv.h` that the kernel is built with,
-- and the ways in which a kernel function does not return.
import Mathlib.Tactic.Common

namespace xv6

def NPROC : Nat := 64
def NOFILE : Nat := 16
def NFILE : Nat := 100
def NINODE : Nat := 50
def NDEV : Nat := 10
def MAXARG : Nat := 32
def MAXOPBLOCKS : Nat := 10
def LOGSIZE : Nat := MAXOPBLOCKS * 3
def NBUF : Nat := MAXOPBLOCKS * 3
def ROOTDEV : Nat := 1

def BSIZE : Nat := 1024

/-- The bytes that a pipe holds, of `pipe.c`. -/
def PIPESIZE : Nat := 512

/-- A kernel function that does not return: it panics with a text, it sleeps and has to be tried
again later, or it stores past the end of an array, after which nothing is known. -/
inductive Stop where
  | panic (text : String)
  | sleep
  | overrun
  deriving DecidableEq

def fileStops : List Stop := [.panic "filedup", .panic "fileclose", .panic "pipeclose"]

end xv6
