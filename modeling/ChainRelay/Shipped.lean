import ChainRelay.Ethereum.Chain
import ChainRelay.Hd.Signer
import ChainRelay.Mock.Prover

/-! # The shipped modules -/

namespace ChainRelay

/-- The modules that ship with the program, in the order of their registration. -/
def shippedModules : List Module :=
  [ethereumModule, hdModule, mockModule]

end ChainRelay
