import Dashcore.Wallet.CoinOrigin
import Dashcore.Wallet.Matching

/-!
# Coins and the routing of transactions

A transaction is classified by its shape, and only accounts of some types are looked at for
each class. In those accounts an offered transaction takes the coins it spends and adds
every output to an address of the account. The accounts of other types are left alone,
whether or not the transaction concerns them.
-/

namespace Dashcore

open Sample ManagedCoreFundsAccount TransactionContext

namespace ManagedCoreFundsAccount

variable (computeTxid : Transaction → Txid) (tx : Transaction)

variable {computeTxid tx} {a a' : ManagedCoreFundsAccount} {key : FundsKey} {m : AccountMatch}
  {context : TransactionContext}

end ManagedCoreFundsAccount

namespace ManagedWalletInfo

variable {computeTxid : Transaction → Txid} {keepFinalized : Bool} {w : ManagedWalletInfo}
  {tx : Transaction} {context : TransactionContext}

end ManagedWalletInfo

namespace ManagedWalletInfo

end ManagedWalletInfo

end Dashcore
