import RedisVfs.Source.Wrapper

set_option autoImplicit false

namespace RedisVfs

open CString

namespace RedisFs

inductive FileMode where
  | S_IFDIR
  | S_IFREG
  deriving DecidableEq

-- The mode is none where it is computed from a type that was never set.
structure StatBuf where
  stNlink : Nat
  stMode : Option FileMode
  stSize : Int
  deriving DecidableEq

def getattr (context : FsContext) (path : Text) : Prog (Int × StatBuf) := do
  let info ← stat context path
  let stMode := info.type.map fun type =>
    if type = .DIR_ITEM_FOLDER then FileMode.S_IFDIR else FileMode.S_IFREG
  return (0, { stNlink := unsigned info.id, stMode, stSize := 0 })

def ENOMEM : Int := 12

-- What the filler answers may depend on what it was handed before.
def fill (filler : List Text → Text → Int) : List Text → List Text → Int × List Text
  | handed, [] => (0, handed)
  | handed, name :: names =>
      if filler handed name ≠ 0 then (-ENOMEM, handed ++ [name])
      else fill filler (handed ++ [name]) names

-- The code, and the names handed to the filler.
def readdir (filler : List Text → Text → Int) (context : FsContext) (path : Text) :
    Prog (Int × List Text) := do
  let names ← lsPath context path
  return fill filler [] names

end RedisFs

end RedisVfs
