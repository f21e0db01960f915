import Shipstream.Protobuf.Varint
import Shipstream.Protobuf.Record
import Shipstream.Protobuf.Message
import Shipstream.Protobuf.Evolution
import Shipstream.Protobuf.MessageClass
import Shipstream.Protobuf.Size
import Shipstream.Orders.Schema
import Shipstream.Orders.OrderClass
import Shipstream.Orders.Compatibility
import Shipstream.Transition.Run
import Shipstream.Transition.Prefix
import Shipstream.Python.Text
import Shipstream.Python.Uuid
import Shipstream.Python.Threads
import Shipstream.Kafka.Poll
import Shipstream.Services.Consumer
import Shipstream.Services.ConsumerGroup
import Shipstream.Orders.Envelope
import Shipstream.Kafka.Delivery
import Shipstream.Kafka.Replication
import Shipstream.Simulations.BackwardCompat.Drain
import Shipstream.Simulations.BackwardCompat.Logs
import Shipstream.Simulations.BackwardCompat.History
import Shipstream.Simulations.BackwardCompat.Coverage
import Shipstream.Simulations.BackwardCompat.Rebalance
import Shipstream.Simulations.ConsumerV2
import Shipstream.Simulations.OrderReaders
import Shipstream.Simulations.AcksComparison
import Shipstream.Simulations.Idempotence
import Shipstream.Simulations.ClusterRestore
import Shipstream.Simulations.PartitionCeiling
import Shipstream.Simulations.PartitionRow
import Shipstream.Scripts.RunConsumers
import Shipstream.Kafka.Producer
import Shipstream.Simulations.Producers
import Shipstream.Simulations.RetryingProducer
import Shipstream.Services.Producer
import Shipstream.Simulations.LogStartOffset.Commit
import Shipstream.Simulations.LogStartOffset.Reset
import Shipstream.Kafka.SegmentedLog
import Shipstream.Simulations.SegmentRoll
import Shipstream.Simulations.RetentionBytes
import Shipstream.Simulations.LogStartOffset.Retention
import Shipstream.Simulations.AcksAll
import Shipstream.Simulations.ExactlyOnce
import Shipstream.Orders.RoundTrip
import Shipstream.Payments.Payment
import Shipstream.Services.Handover
import Shipstream.Services.Pipeline
import Shipstream.Shell.Errexit
import Shipstream.Scripts.CrashRecovery
import Shipstream.Scripts.ConsumerLifetimes
import Shipstream.Services.Drain
import Shipstream.Services.Reprints
import Shipstream.Simulations.AutoCreate
import Shipstream.Simulations.FlushEach
import Shipstream.Simulations.ConsumedMessages
import Shipstream.Services.EndToEnd
