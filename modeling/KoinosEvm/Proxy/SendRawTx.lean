/-
`eth_sendRawTransaction` up to its critical section (`handle_send_raw_tx` of
rpc/src/rpc.rs): the raw transaction is read, decoded and held to the floor
before it comes to the relay (Relay.lean), with its hash.

The placeholder's metadata are those that were decoded; the relay keeps the
Koinos id of it.
-/
import KoinosEvm.Proxy.EthTx
import KoinosEvm.Proxy.Quantities
import KoinosEvm.Proxy.Relay

namespace KoinosEvm.Proxy

/-- The configured floor, and what comes from outside: the hash and the
curve. -/
structure SendConfig where
  keccak : Bytes → B256
  secp : EthTx.Secp256k1
  minGasPriceWei : U128

/-- What the handler goes on with. -/
structure Admitted where
  rawTx : Bytes
  ethHash : B256
  decoded : EthTx.DecodedTx

/-- Its job at the relay. -/
def Admitted.job (a : Admitted) : RelayJob := ⟨a.ethHash, a.rawTx⟩

variable [HexCrate]

/-- `handle_send_raw_tx`, before its critical section. -/
def admitRawTx (cfg : SendConfig) (params : Value) : Except RpcFailure Admitted := do
  let rawHex ← badParams (paramStr params 0)
  let rawTx ← badParams (parseData rawHex)
  if rawTx.isEmpty then badParams (.error "empty raw_tx")
  else
    let ethHash := cfg.keccak rawTx
    let decoded ← badParams ((EthTx.decodeAndRecover cfg.keccak cfg.secp rawTx).mapError
      fun e => "failed to decode raw tx: " ++ e)
    checkGasPrice cfg.minGasPriceWei decoded.gasPrice
    return ⟨rawTx, ethHash, decoded⟩

/-- What the proxy does: a post of `eth_sendRawTransaction` comes in, or the
relay takes a step. -/
inductive SendAct where
  | post (params : Value)
  | relay (a : RelayAct)

/-- What the relay has of it. A post that is refused is answered and is over;
requests come of posts only. -/
def SendAct.toRelay (cfg : SendConfig) : SendAct → List RelayAct
  | .post params =>
      match admitRawTx cfg params with
      | .ok a => [.request a.job]
      | .error _ => []
  | .relay (.request _) => []
  | .relay a => [a]

end KoinosEvm.Proxy
